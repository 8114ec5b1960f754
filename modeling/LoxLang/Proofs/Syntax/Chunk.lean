import LoxLang.Proofs.Syntax.Follows

/-!
Parsing whole programs. A moved program parses to the moved result, whatever faults it has. A program with
another one behind it parses to the statements of both, if it has no faults itself.
-/

namespace LoxLang

open LoxLang.Parser (Advances)

/-- What parsing yields when the tokens are moved. -/
def Parse.moved (v : Move) (p : Parse) : Parse :=
  ⟨v.stmts p.statements, p.faults.map v.diagnostic, p.nextId + v.shift⟩

/-- What parsing yields when something has been reported before. -/
def Parse.behind (before : Array Diagnostic) (p : Parse) : Parse :=
  ⟨p.statements, before.toList ++ p.faults, p.nextId⟩

namespace Seam

variable {K : Seam} {s t s' : Parser.State} {m : Nat}

namespace Follows

/-- The second loop over the declarations may have a larger number of its own. -/
theorem programFrom (helse : K.NoElse) (n d : Nat) (hn : s.rest.length ≤ n) (hm : s.rest.length ≤ m) :
    K.Follows true 0 s (Parser.programFrom (Parser.declaration m) n)
      (Parser.programFrom (Parser.declaration (m + K.extra)) (n + d)) K.move.stmts := by
  induction n generalizing s with
  | zero => exact of_nil (Parser.nil_of_length hn) ⟨.refl, Nat.le_refl _⟩
  | succ n ih =>
    rw [Nat.add_right_comm]
    refine checked fun atEnd hend => ?_
    cases atEnd with
    | true => exact pure rfl
    | false =>
      have hfront : s.front.kind ≠ .eof := fun h => by rw [h] at hend; cases hend
      refine ((declaration helse m hm hfront).weaken (fun _ => rfl) (Nat.le_refl 1)).bind
        fun stmt? s₁ h₁ => ?_
      refine (ih (by omega) (by omega)).bind fun rest s₂ h₂ => ?_
      exact pure (K.move.stmts_toList _ _)

end Follows

section Loop

variable {d : Parser (Option Stmt)}

theorem run_programFrom_end (h : s.front.kind = .eof) (n : Nat) :
    (Parser.programFrom d (n + 1)).run s = .ok [] s := by
  have hcheck : (Parser.check .eof).run s = .ok true s := by
    rw [← show (s.front.kind == .eof) = true by rw [h]; rfl]
    rfl
  unfold Parser.programFrom
  rw [EStateM.run_bind, hcheck]
  rfl

theorem run_programFrom_next (h : s.front.kind ≠ .eof) (n : Nat) :
    (Parser.programFrom d (n + 1)).run s =
      (d >>= fun stmt? => Parser.programFrom d n >>= fun rest => pure (stmt?.toList ++ rest)).run s := by
  have hcheck : (Parser.check .eof).run s = .ok false s := by
    rw [← show (s.front.kind == .eof) = false from beq_eq_false_iff_ne.mpr h]
    rfl
  rw [Parser.programFrom, EStateM.run_bind, hcheck]
  rfl

/-- A fault is caught by the declaration in which it occurs. -/
theorem recovering_ends (rule : Parser Stmt) (s : Parser.State) :
    Ends (Parser.recovering rule) s (fun _ _ => True) fun _ _ => False := by
  unfold Ends EStateM.run Parser.recovering
  cases rule s <;> exact trivial

theorem programFrom_ends (m n : Nat) (s : Parser.State) :
    Ends (Parser.programFrom (Parser.declaration m) n) s (fun _ _ => True) fun _ _ => False := by
  induction n generalizing s with
  | zero => exact trivial
  | succ n ih =>
    by_cases hfront : s.front.kind = .eof
    · unfold Ends
      rw [run_programFrom_end hfront]
      exact trivial
    · unfold Ends
      rw [run_programFrom_next hfront]
      exact (recovering_ends _ s).bind fun stmt? s₁ _ => (ih s₁).bind fun rest s₂ _ => trivial

end Loop

/-- A program without faults in front of the seam: the loop over the declarations yields its statements, and
behind the seam it goes on with a number that is still large enough. -/
theorem programFrom_continues (helse : K.NoElse) {j : Nat} (n n' : Nat) {body : List Stmt} (hat : K.At s t)
    (hinner : ∀ ts, s.rest = ts ++ K.tail → ∀ u ∈ ts, u.kind ≠ .eof)
    (hn : s.rest.length ≤ n) (hn' : s.rest.length + j ≤ n') (hm : s.rest.length ≤ m)
    (hrun : (Parser.programFrom (Parser.declaration m) n).run s = .ok body s')
    (hfaults : s'.faults = s.faults) :
    ∃ k t', j < k ∧ s'.rest = K.tail ∧ K.At s' t' ∧
      (Parser.programFrom (Parser.declaration (m + K.extra)) n').run t =
        (Parser.programFrom (Parser.declaration (m + K.extra)) k >>= fun rest =>
          pure (K.move.stmts body ++ rest)).run t' := by
  induction n generalizing s t n' body with
  | zero => exact absurd (Parser.nil_of_length hn) hat.front_ne
  | succ n ih =>
    obtain ⟨ts, hs, ht⟩ := hat.rest
    have hpos := List.length_pos_of_ne_nil hat.front_ne
    by_cases hfront : s.front.kind = .eof
    · rw [run_programFrom_end hfront] at hrun
      cases hrun
      have hnil : ts = [] := by
        cases ts with
        | nil => rfl
        | cons u us =>
          refine absurd ?_ (hinner _ hs u List.mem_cons_self)
          rw [← hfront, Parser.State.front, hs]
          rfl
      refine ⟨n', t, by omega, by rw [hs, hnil]; rfl, hat, ?_⟩
      exact congrArg (EStateM.run · t) (bind_pure _).symm
    · have hmoved : t.front.kind = s.front.kind := by
        cases ts with
        | nil =>
          refine absurd ?_ hfront
          rcases K.ends with ⟨hnil, _⟩ | ⟨last, hlast, hkind⟩
          · exact absurd (hs.trans hnil) hat.front_ne
          · rw [Parser.State.front, hs, hlast]
            exact hkind
        | cons u us =>
          rw [Parser.State.front, Parser.State.front, hs, ht]
          rfl
      rw [run_programFrom_next hfront, EStateM.run_bind] at hrun
      have hdeclaration := Follows.declaration helse m hm hfront
      have hends := hdeclaration.advances
      have hmatched := hdeclaration.matched t hat
      unfold Ends at hends
      cases hfirst : (Parser.declaration m).run s with
      | error e s₁ =>
        rw [hfirst] at hrun
        cases hrun
      | ok stmt? s₁ =>
        rw [hfirst] at hrun hends hmatched
        dsimp only at hrun
        rw [EStateM.run_bind] at hrun
        obtain ⟨hadvances, hlength⟩ := hends
        have hloop := (Follows.programFrom (K := K) (s := s₁) helse n 0 (by omega) (by omega)
          (m := m)).advances
        unfold Ends at hloop
        cases hrest : (Parser.programFrom (Parser.declaration m) n).run s₁ with
        | error e s₂ =>
          rw [hrest] at hrun
          cases hrun
        | ok rest s₂ =>
          rw [hrest] at hrun hloop
          cases hrun
          have hunchanged := Advances.faults_eq hadvances hloop.1 hfaults
          obtain ⟨t₁, hq, ht₁⟩ := hmatched (.inr ⟨hunchanged, fun h => nomatch h⟩)
          have hinner₁ : ∀ ts, s₁.rest = ts ++ K.tail → ∀ u ∈ ts, u.kind ≠ .eof := by
            intro ts₁ hs₁ u hu
            obtain ⟨front, hfront⟩ := hadvances.rest
            refine hinner (front ++ ts₁) ?_ u (List.mem_append_right _ hu)
            rw [← hfront, hs₁, List.append_assoc]
          obtain ⟨n', rfl⟩ : ∃ n₁, n' = n₁ + 1 := ⟨n' - 1, by omega⟩
          obtain ⟨k, t', hk, hend, hat', hgoes⟩ := ih n' ht₁ hinner₁ (by omega) (by omega) (by omega)
            hrest (hfaults.trans hunchanged.symm)
          refine ⟨k, t', hk, hend, hat', ?_⟩
          rw [run_programFrom_next (hmoved.trans_ne hfront), EStateM.run_bind, hq]
          dsimp only
          rw [EStateM.run_bind, hgoes, ← EStateM.run_bind, bind_assoc]
          simp only [pure_bind, Move.stmts_toList, List.append_assoc]

/-- If both lists end at the seam, what has been parsed is moved. -/
theorem Matches.moved {peeks : Bool} {x y : EStateM.Result Diagnostic Parser.State (List Stmt)}
    (h : K.Matches peeks K.move.stmts s x y) (hsealed : K.Sealed) :
    Parse.ofResult y = ((Parse.ofResult x).moved K.move).behind K.before := by
  unfold Matches at h
  cases x with
  | ok body s' =>
    obtain ⟨t', hy, ht'⟩ := h (.inl hsealed)
    rw [hy, Parse.ofResult, Parse.ofResult, Parse.moved, ht'.faults, Array.toList_append, Array.toList_map]
    exact congrArg (Parse.mk _ _) ht'.nextId
  | error e s' =>
    obtain ⟨t', hy, ht'⟩ := h hsealed
    rw [hy, Parse.ofResult, Parse.ofResult, Parse.moved, ht'.faults, ← Array.append_push, ← Array.map_push,
      Array.toList_append, Array.toList_map]
    exact congrArg (Parse.mk _ _) ht'.nextId

end Seam

/-- The tokens end with the end of the file. -/
def Ended (ts : List Token) : Prop :=
  ∃ last : Token, last.kind = .eof ∧ [last] <:+ ts

/-- The tokens of a moved program yield the moved result, whatever faults it has and whatever has been
reported before, and also if the rules get larger numbers. -/
theorem ofResult_moved (v : Move) {ts : List Token} (hended : Ended ts) (before : Array Diagnostic)
    (firstId extra d : Nat) :
    Parse.ofResult ((Parser.programFrom (Parser.declaration (ts.length + extra)) (ts.length + d)).run
      ⟨ts.map v.token, firstId + v.shift, before⟩) = ((parse ts firstId).moved v).behind before := by
  let K : Seam := ⟨v, [], [], extra, before, .inl ⟨rfl, rfl⟩⟩
  have hfollows := Seam.Follows.programFrom (K := K) (s := ⟨ts, firstId, #[]⟩) (m := ts.length)
    (fun _ _ h => nomatch h) ts.length d (Nat.le_refl _) (Nat.le_refl _)
  have hat : K.At ⟨ts, firstId, #[]⟩ ⟨ts.map v.token, firstId + v.shift, before⟩ :=
    ⟨⟨ts, (List.append_nil ts).symm, (List.append_nil _).symm⟩, rfl, by simp [K], hended⟩
  exact (hfollows.matched _ hat).moved ⟨rfl, rfl⟩

/-- Moved tokens parse to the moved result, whatever faults they have. -/
theorem parse_moved (v : Move) {ts : List Token} (hended : Ended ts) (firstId : Nat) :
    parse (ts.map v.token) (firstId + v.shift) = (parse ts firstId).moved v := by
  unfold parse
  rw [List.length_map]
  exact ofResult_moved v hended #[] firstId 0 0

/-- Placing the tokens and numbering the nodes from `first` on moves the program. -/
theorem parse_placed {ts : List Token} (hended : Ended ts) (first : Nat) (v : Position → Position) :
    parse (ts.map (Token.placed v)) first = (parse ts 0).moved (.along first v) := by
  have h := parse_moved (.along first v) hended 0
  rwa [Nat.zero_add] at h

theorem parse_placed_id {ts : List Token} (hended : Ended ts) (first : Nat) :
    parse ts first = (parse ts 0).moved (.along first id) := by
  have h := parse_placed hended first id
  rwa [show ts.map (Token.placed id) = ts from List.map_id ts] at h

/-- Larger numbers and earlier reports make no difference to what is parsed. -/
theorem ofResult_behind {ts : List Token} (hended : Ended ts) {m n : Nat} (hm : ts.length ≤ m)
    (hn : ts.length ≤ n) (before : Array Diagnostic) (firstId : Nat) :
    Parse.ofResult ((Parser.programFrom (Parser.declaration m) n).run ⟨ts, firstId, before⟩) =
      (parse ts firstId).behind before := by
  obtain ⟨extra, rfl⟩ := Nat.exists_eq_add_of_le hm
  obtain ⟨d, rfl⟩ := Nat.exists_eq_add_of_le hn
  have hmap : ts.map (Move.token (.along 0 id)) = ts := List.map_id ts
  have hrun := ofResult_moved (.along 0 id) hended before firstId extra d
  have hsame := parse_moved (.along 0 id) hended firstId
  rw [hmap] at hrun hsame
  rw [← hsame] at hrun
  exact hrun

/-- The rule fails. -/
def Refuses {α : Type} (p : Parser α) (s : Parser.State) : Prop :=
  Ends p s (fun _ _ => False) fun _ _ => True

theorem Refuses.bind {α β : Type} {p : Parser α} {f : α → Parser β} {s : Parser.State}
    (h : Refuses p s) : Refuses (p >>= f) s :=
  Ends.bind h fun _ _ h => h.elim

section Refuses

variable {t : Token} {ts : List Token} {s : Parser.State}

theorem Refuses.choice {γ δ : Type} {choose : TokenKind → Option γ} {f : Option (γ × Token) → Parser δ}
    (hs : s.rest = t :: ts) (hchoose : choose t.kind = none) (h : Refuses (f none) s) :
    Refuses (Parser.acceptWith? choose >>= f) s := by
  have hrun : (Parser.acceptWith? choose).run s = .ok none s :=
    Parser.run_acceptWith?_none fun u us hu => by
      rw [hs] at hu
      cases hu
      exact hchoose
  unfold Refuses Ends
  rw [EStateM.run_bind, hrun]
  exact h

/-- No expression begins with a token that neither is an operator in front of an operand nor begins an
operand. -/
theorem expression_refuses (hs : s.rest = t :: ts) (hlead : Parser.lead? t.kind = none)
    (hunary : Parser.unaryOp? t.kind = none) (n : Nat) : Refuses (Parser.expression n) s := by
  cases n with
  | zero => exact trivial
  | succ n =>
    have hprimary : Refuses (Parser.primary (Parser.expression n)) s := .choice hs hlead trivial
    have hoperand : Refuses (Parser.operand (n + 1) (Parser.expression n)) s :=
      .choice hs hunary hprimary.bind
    have hbinary : Refuses (Parser.binary (n + 1) (Parser.expression n)) s :=
      hoperand.bind.bind.bind.bind.bind
    exact hbinary.bind.bind.bind

theorem Refuses.recovering {rule : Parser Stmt} (h : Refuses rule s) :
    Ends (Parser.recovering rule) s (fun _ s' => 0 < s'.faults.size) fun _ _ => False := by
  unfold Refuses Ends EStateM.run at h
  unfold Ends EStateM.run Parser.recovering
  cases hrun : rule s with
  | ok stmt s' =>
    rw [hrun] at h
    exact h.elim
  | error e s' =>
    dsimp only
    rw [Array.size_push]
    exact Nat.succ_pos _

/-- No declaration begins with `else`. -/
theorem declaration_refuses (hs : s.rest = t :: ts) (hkind : t.kind = .kwElse) (n : Nat) :
    Ends (Parser.declaration n) s (fun _ s' => 0 < s'.faults.size) fun _ _ => False := by
  have hexpression := expression_refuses hs (hkind ▸ rfl) (hkind ▸ rfl) n
  have hrule : Refuses (Parser.statementWith n (Parser.statement n) (Parser.block n)) s :=
    .choice hs (hkind ▸ rfl) hexpression.bind
  exact Refuses.recovering (.choice hs (hkind ▸ rfl) hrule)

end Refuses

/-- A program without faults does not begin with `else`. -/
theorem parse_head {t : Token} {ts : List Token} {firstId : Nat} (h : (parse (t :: ts) firstId).faults = []) :
    t.kind ≠ .kwElse := by
  intro hkind
  let s : Parser.State := ⟨t :: ts, firstId, #[]⟩
  have hfront : s.front.kind ≠ .eof := fun heof => by cases hkind.symm.trans heof
  let K : Seam := ⟨.along 0 id, [], [], 0, #[], .inl ⟨rfl, rfl⟩⟩
  have hK : K.NoElse := fun _ _ h => nomatch h
  have hadvances := (Seam.Follows.declaration hK (t :: ts).length (Nat.le_refl s.rest.length) hfront).advances
  have hfault := declaration_refuses (s := s) rfl hkind (t :: ts).length
  have hrun : Ends (Parser.programFrom (Parser.declaration (t :: ts).length) (t :: ts).length) s
      (fun _ s' => 0 < s'.faults.size) fun _ s' => 0 < s'.faults.size := by
    unfold Ends at hadvances hfault ⊢
    rw [List.length_cons, Seam.run_programFrom_next hfront, EStateM.run_bind]
    cases hfirst : (Parser.declaration (ts.length + 1)).run s with
    | error e s₁ =>
      rw [List.length_cons, hfirst] at hfault
      exact hfault.elim
    | ok stmt? s₁ =>
      rw [List.length_cons, hfirst] at hadvances hfault
      have hlength : s₁.rest.length ≤ ts.length := Nat.le_of_succ_le_succ hadvances.2
      have hloop := (Seam.Follows.programFrom hK ts.length 0 hlength (Nat.le_succ_of_le hlength)).advances
      have hkept : ∀ s₂, Advances s₁ s₂ → 0 < s₂.faults.size := fun s₂ h₂ =>
        Nat.lt_of_lt_of_le hfault h₂.faults.length_le
      refine Ends.bind (hloop.imp (fun _ s₂ h₂ => hkept s₂ h₂.1) fun _ s₂ h₂ => hkept s₂ h₂) ?_
      exact fun rest s₂ h₂ => h₂
  unfold Ends at hrun
  unfold parse at h
  dsimp only at h
  cases hall : (Parser.programFrom (Parser.declaration (t :: ts).length) (t :: ts).length).run s with
  | ok body s' =>
    rw [hall] at hrun h
    have hclean : s'.faults = #[] := Array.toList_inj.mp h
    exact absurd (congrArg Array.size hclean) (Nat.ne_of_gt hrun)
  | error e s' =>
    rw [hall] at h
    simp [Parse.ofResult] at h

/-- The tokens of a program without faults, with `us` behind them instead of the end of the file: once its
statements are parsed, the loop goes on with `us`. -/
theorem run_front {front us : List Token} {e : Token} (v : Move) (he : e.kind = .eof)
    (hfront : ∀ t ∈ front, t.kind ≠ .eof) (helse : ∀ t ts, us = t :: ts → t.kind ≠ .kwElse)
    (hpos : 0 < us.length) {firstId : Nat} {p : Parse} (hp : parse (front ++ [e]) firstId = p)
    (hfaults : p.faults = []) :
    ∃ k, us.length ≤ k ∧
      (Parser.programFrom (Parser.declaration (us.length + front.length)) (us.length + front.length)).run
          ⟨front.map v.token ++ us, firstId + v.shift, #[]⟩ =
        (Parser.programFrom (Parser.declaration (us.length + front.length)) k >>= fun rest =>
          pure (v.stmts p.statements ++ rest)).run ⟨us, p.nextId + v.shift, #[]⟩ := by
  let K : Seam := ⟨v, [e], us, us.length - 1, #[], .inr ⟨e, rfl, he⟩⟩
  have htotal : (front ++ [e]).length + K.extra = us.length + front.length := by
    simp only [List.length_append, List.length_singleton, K]
    omega
  unfold parse at hp
  dsimp only at hp
  cases hrun : (Parser.programFrom (Parser.declaration (front ++ [e]).length) (front ++ [e]).length).run
      ⟨front ++ [e], firstId, #[]⟩ with
  | error fault s =>
    rw [hrun] at hp
    rw [← hp] at hfaults
    simp [Parse.ofResult] at hfaults
  | ok body s =>
    rw [hrun] at hp
    subst hp
    have hclean : s.faults = #[] := Array.toList_inj.mp hfaults
    have hat : K.At ⟨front ++ [e], firstId, #[]⟩ ⟨front.map v.token ++ us, firstId + v.shift, #[]⟩ :=
      ⟨⟨front, rfl, rfl⟩, rfl, by simp [K], ⟨e, he, List.suffix_append front [e]⟩⟩
    have hinner : ∀ ts, front ++ [e] = ts ++ K.tail → ∀ u ∈ ts, u.kind ≠ .eof := by
      intro ts hts
      rw [← List.append_cancel_right hts]
      exact hfront
    obtain ⟨k, t, hk, hend, hat', hgoes⟩ := Seam.programFrom_continues (K := K) helse (j := K.extra) _
      (us.length + front.length) hat hinner (Nat.le_refl _) (Nat.le_of_eq htotal) (Nat.le_refl _)
      hrun hclean
    refine ⟨k, Nat.le_of_pred_lt hk, ?_⟩
    obtain ⟨ts, hs, ht⟩ := hat'.rest
    have hnil : ts = [] := List.append_left_eq_self.mp (hs.symm.trans hend)
    rw [hnil] at ht
    have ht' : t = ⟨us, s.nextId + v.shift, #[]⟩ := by
      have hnext := hat'.nextId
      have hnone := hat'.faults
      rw [hclean, Array.map_empty, Array.append_empty] at hnone
      cases t
      cases ht
      cases hnext
      cases hnone
      rfl
    dsimp only at hgoes
    rw [htotal, ht'] at hgoes
    exact hgoes

/-- The tokens of a program without faults stay where they are. -/
theorem run_front_id {front us : List Token} {e : Token} (he : e.kind = .eof)
    (hfront : ∀ t ∈ front, t.kind ≠ .eof) (helse : ∀ t ts, us = t :: ts → t.kind ≠ .kwElse)
    (hpos : 0 < us.length) {firstId : Nat} {p : Parse} (hp : parse (front ++ [e]) firstId = p)
    (hfaults : p.faults = []) {m : Nat} (hm : us.length + front.length = m) :
    ∃ k, us.length ≤ k ∧
      (Parser.programFrom (Parser.declaration m) m).run ⟨front ++ us, firstId, #[]⟩ =
        (Parser.programFrom (Parser.declaration m) k >>= fun rest =>
          pure (p.statements ++ rest)).run ⟨us, p.nextId, #[]⟩ := by
  have hmap : ∀ ts : List Token, ts.map (Move.token (.along 0 id)) = ts := List.map_id
  have hended : Ended (front ++ [e]) := ⟨e, he, List.suffix_append front [e]⟩
  have hmoved : parse ((front ++ [e]).map (Move.token (.along 0 id))) firstId = _ :=
    parse_moved (.along 0 id) hended firstId
  rw [hmap, hp] at hmoved
  have hstatements : Move.stmts (.along 0 id) p.statements = p.statements := (congrArg Parse.statements hmoved).symm
  have hrun := run_front (.along 0 id) he hfront helse hpos hp hfaults
  rw [hmap, hstatements, hm] at hrun
  exact hrun

/-- Two programs without faults, one behind the other instead of the end of the file, parse to the
statements of both; those of the second one get the identities that follow. -/
theorem parse_append {front us : List Token} {e : Token} (v w : Move) (hshift : w.shift = v.shift)
    (he : e.kind = .eof) (hfront : ∀ t ∈ front, t.kind ≠ .eof) (hus : Ended us) {firstId : Nat}
    {p q : Parse} (hp : parse (front ++ [e]) firstId = p) (hq : parse us p.nextId = q)
    (hfaults : p.faults = []) (hfaults' : q.faults = []) :
    parse (front.map v.token ++ us.map w.token) (firstId + v.shift) =
      ⟨v.stmts p.statements ++ w.stmts q.statements, [], q.nextId + w.shift⟩ := by
  have hpos : 0 < (us.map w.token).length := by
    obtain ⟨last, _, hsuffix⟩ := hus
    rw [List.length_map]
    exact hsuffix.length_le
  have helse : ∀ t ts, us.map w.token = t :: ts → t.kind ≠ .kwElse := by
    intro t ts ht
    obtain ⟨u, us', hu, rfl, _⟩ := List.map_eq_cons_iff.mp ht
    have hclean : (parse (u :: us') p.nextId).faults = [] := by rw [← hu, hq, hfaults']
    exact fun hkind => parse_head hclean hkind
  obtain ⟨k, hk, hrun⟩ := run_front v he hfront helse hpos hp hfaults
  have hmoved := ofResult_moved w hus #[] p.nextId front.length (k - us.length)
  rw [List.length_map] at hk hrun
  rw [Nat.add_sub_of_le hk, hq, hshift] at hmoved
  have hlength : (front.map v.token ++ us.map w.token).length = us.length + front.length := by
    simp [Nat.add_comm]
  unfold parse
  dsimp only
  rw [hlength, hrun, EStateM.run_bind]
  cases hrest : (Parser.programFrom (Parser.declaration (us.length + front.length)) k).run
      ⟨us.map w.token, p.nextId + v.shift, #[]⟩ with
  | error fault t =>
    rw [hrest] at hmoved
    have hfault := congrArg Parse.faults hmoved
    simp [Parse.ofResult, Parse.moved, Parse.behind, hfaults'] at hfault
  | ok rest t =>
    rw [hrest] at hmoved
    have hnone := congrArg Parse.faults hmoved
    have hnext := congrArg Parse.nextId hmoved
    have hbody := congrArg Parse.statements hmoved
    dsimp only [Parse.ofResult, Parse.moved, Parse.behind, EStateM.run_pure] at hnone hnext hbody ⊢
    rw [hnone, hnext, hbody, hfaults', hshift]
    rfl

end LoxLang
