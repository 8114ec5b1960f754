import LoxLang.Proofs.Session.Alike
import LoxLang.Proofs.Session.Events

/-!
The sessions that programs lead to. Whatever has been run in a session, all nodes of its code have been given
out, and its code stands in finitely many lines; so a session is alike to itself in a narrow way, which is
where comparisons of two runs in it begin.
-/

namespace LoxLang

/-- Each node below `next` corresponds to itself, and so does each place in the first `lines` lines. -/
def Skew.diagonal (next lines : Nat) : Skew :=
  ⟨fun i j => i = j ∧ @LT.lt Nat _ i next, fun p q => p = q ∧ p.line < lines⟩

theorem Skew.grow_diagonal (next lines count : Nat) :
    (Skew.diagonal next lines).grow next next count = Skew.diagonal (count + next) lines := by
  have hnode : (fun i j : NodeId => (i = j ∧ @LT.lt Nat _ i next) ∨
      ∃ k : Nat, k < count ∧ i = next + k ∧ j = next + k) =
        fun i j => i = j ∧ @LT.lt Nat _ i (count + next) := by
    funext i j
    refine propext ⟨?_, ?_⟩
    · rintro (⟨hij, hi⟩ | ⟨k, hk, rfl, rfl⟩)
      · exact ⟨hij, by omega⟩
      · exact ⟨rfl, by omega⟩
    · rintro ⟨rfl, hi⟩
      by_cases hold : @LT.lt Nat _ i next
      · exact .inl ⟨rfl, hold⟩
      · have hk : i = next + (i - next) := (Nat.add_sub_of_le (Nat.le_of_not_lt hold)).symm
        exact .inr ⟨i - next, by omega, hk, hk⟩
  exact congrArg (Skew.mk · _) hnode

namespace Session

variable {s t : Session} {S : Skew}

/-! ### Events in sessions that are alike -/

theorem Alike.runFile (h : s.Alike S t) (hplace : ∀ p q, S.place p q ↔ p = q) (steps : Nat)
    (path : String) : (s.runFile steps path).1 = (t.runFile steps path).1 ∧
      ∃ T : Skew, (∀ p q, T.place p q ↔ p = q) ∧
        (s.runFile steps path).2.Alike T (t.runFile steps path).2 := by
  have hsource : s.source = t.source := by
    unfold Session.source
    rw [h.machine.files, h.includeDir]
  unfold Session.runFile
  rw [h.machine.files, hsource]
  cases t.machine.files.readProgram path with
  | error reason => exact ⟨rfl, S, hplace, h⟩
  | ok text =>
    dsimp only
    cases Include.expand t.source ((Path.parent? path).getD "") text with
    | error fault => exact ⟨rfl, S, hplace, h⟩
    | ok e =>
      obtain ⟨hreport, hnext⟩ := h.run (fun p => (hplace p p).mpr rfl) steps (String.ofList e.source)
      have hsame := Report.Alike.eq hreport fun p q => (hplace p q).mp
      refine ⟨?_, S.grow s.nextId t.nextId _, hplace, hnext⟩
      dsimp only
      rw [hsame]

theorem Alike.step (h : s.Alike S t) (hplace : ∀ p q, S.place p q ↔ p = q) (e : Event) :
    (s.step e).1 = (t.step e).1 ∧
      ∃ T : Skew, (∀ p q, T.place p q ↔ p = q) ∧ (s.step e).2.Alike T (t.step e).2 := by
  cases e with
  | run steps source =>
    obtain ⟨hreport, hnext⟩ := h.run (fun p => (hplace p p).mpr rfl) steps source
    have hsame := Report.Alike.eq hreport fun p q => (hplace p q).mp
    exact ⟨congrArg (fun r => some (Except.ok r)) hsame, S.grow s.nextId t.nextId _, hplace, hnext⟩
  | runFile steps path =>
    obtain ⟨hreport, hnext⟩ := h.runFile hplace steps path
    exact ⟨congrArg some hreport, hnext⟩
  | «meanwhile» files input clock =>
    exact ⟨rfl, S, hplace, h.nodes, { h.machine with files := rfl, input := rfl, clock := rfl },
      h.fresh, h.fresh', h.includeDir⟩

/-- Whatever happens next, it shows the same in sessions that are alike. -/
theorem Alike.follow (h : s.Alike S t) (hplace : ∀ p q, S.place p q ↔ p = q) (events : List Event) :
    (s.follow events).1 = (t.follow events).1 := by
  induction events generalizing s t S with
  | nil => rfl
  | cons e rest ih =>
    obtain ⟨hfirst, T, hT, hnext⟩ := h.step hplace e
    unfold Session.follow
    rw [hfirst, ih hnext hT]

/-! ### Settled sessions -/

/-- The code of the session stands in the first `lines` lines, and all its nodes have been given out. -/
def Settled (lines : Nat) (s : Session) : Prop :=
  s.Alike (Skew.diagonal s.nextId lines) s

theorem new_settled (files : Files) (includeDir : Option String) (input : List InputLine)
    (clock : Clock) (regex : Pattern.Engine) : (Session.new files includeDir input clock regex).Settled 0 := by
  have hnatives : Bindings.Alike (Value.Alike (Skew.diagonal 0 0))
      (Native.all.map fun f => (f.name, .native f)) (Native.all.map fun f => (f.name, .native f)) := by
    generalize Native.all = natives
    induction natives with
    | nil => exact .nil
    | cons f _ ih => exact .cons ⟨rfl, .data trivial⟩ ih
  have hheap : Machine.initialHeap.Alike (Skew.diagonal 0 0) Machine.initialHeap :=
    ⟨.cons ⟨hnatives, rfl⟩ .nil, .nil, .nil, .nil⟩
  refine ⟨⟨?_, ?_⟩, ⟨hheap, rfl, rfl, rfl, ?_, rfl, rfl, rfl, rfl, rfl⟩, ?_, ?_, rfl⟩
  · rintro i j i' j' ⟨rfl, _⟩ ⟨rfl, _⟩
    exact Iff.rfl
  · rintro i j ⟨_, hi⟩
    exact absurd hi (Nat.not_lt_zero i)
  · rintro i j ⟨rfl, _⟩
    rfl
  · intro id _
    simp [Session.new, Machine.initial, HopTable.empty, HopTable.find?]
  · intro id _
    simp [Session.new, Machine.initial, HopTable.empty, HopTable.find?]

/-- Some number is larger than those of all the elements. -/
theorem exists_bound {α : Type} (f : α → Nat) (xs : List α) : ∃ n, ∀ x ∈ xs, f x < n := by
  induction xs with
  | nil => exact ⟨0, by simp⟩
  | cons x rest ih =>
    obtain ⟨n, hn⟩ := ih
    refine ⟨max n (f x + 1), fun y hy => ?_⟩
    rcases List.mem_cons.mp hy with rfl | hy
    · omega
    · have := hn y hy
      omega

/-- The place, unless it is not in the first lines. -/
def within (lines : Nat) (p : Position) : Position :=
  if p.line < lines then p else .start

theorem within_of_lt {lines : Nat} {p : Position} (h : p.line < lines) : within lines p = p :=
  if_pos h

/-- Some number of lines holds a text, so nothing in it is in a different place. -/
theorem exists_lines (source : String) (least : Nat) : ∃ lines, least < lines ∧
    (tokens source).map (Token.placed (within lines)) = tokens source ∧
      (lexicalFaults source).map (Diagnostic.placed (within lines)) = lexicalFaults source := by
  obtain ⟨n, hn⟩ := exists_bound (fun t : Token => max t.span.start.line t.span.stop.line) (tokens source)
  obtain ⟨k, hk⟩ := exists_bound (fun d : Diagnostic => d.position.line) (lexicalFaults source)
  refine ⟨least + n + k + 1, by omega, ?_, ?_⟩
  · refine (List.map_congr_left fun t ht => ?_).trans (List.map_id _)
    have hlines := hn t ht
    unfold Token.placed
    rw [within_of_lt (by omega), within_of_lt (by omega)]
    rfl
  · refine (List.map_congr_left fun d hd => ?_).trans (List.map_id _)
    have hline := hk d hd
    unfold Diagnostic.placed
    rw [within_of_lt (by omega)]
    rfl

theorem parse_nextId {ts : List Token} (hended : Ended ts) (first : Nat) :
    @Eq Nat (parse ts first).nextId ((parse ts 0).nextId + first) := by
  have h := parse_placed hended first id
  rw [show ts.map (Token.placed id) = ts from List.map_id ts] at h
  rw [h]
  rfl

theorem execute_nextId (steps : Nat) (program : List Stmt) (s : Session) :
    (s.execute steps program).2.nextId = s.nextId := by
  unfold Session.execute
  split <;> rfl

theorem run_nextId (steps : Nat) (source : String) (s : Session) :
    @Eq Nat (s.run steps source).2.nextId ((parse (tokens source) 0).nextId + s.nextId) := by
  refine Eq.trans ?_ (parse_nextId (ended_tokens source) s.nextId)
  unfold Session.run
  rcases runScanned_course (lexicalFaults source) (tokens source) s with
    ⟨_, _, _, hrun⟩ | ⟨_, _, hrun⟩
  · rw [hrun]
    rfl
  · rw [hrun, execute_nextId]
    rfl

theorem within_diagonal {lines : Nat} (hpos : 0 < lines) (next : Nat) (p : Position) :
    (Skew.diagonal next lines).place (within lines p) (within lines p) := by
  refine ⟨rfl, ?_⟩
  unfold within
  split
  · assumption
  · exact hpos

theorem Settled.widen {lines more : Nat} (h : s.Settled lines) (hle : lines ≤ more) : s.Settled more :=
  h.imp_place fun _ _ hplace => ⟨hplace.1, Nat.lt_of_lt_of_le hplace.2 hle⟩

/-- A run leaves a settled session, with its own text in the first lines too. -/
theorem Settled.run {lines : Nat} (h : s.Settled lines) (steps : Nat) (source : String) :
    ∃ lines', (s.run steps source).2.Settled lines' := by
  obtain ⟨lines', hlt, htokens, hlexical⟩ := exists_lines source lines
  have hpos : 0 < lines' := Nat.zero_lt_of_lt hlt
  have hrun := ((h.widen (Nat.le_of_lt hlt)).runScanned steps (lexicalFaults source)
    (ended_tokens source) (tokens_words source) (within_diagonal hpos s.nextId)).2
  rw [htokens, hlexical, Skew.grow_diagonal, ← run_nextId steps source s] at hrun
  exact ⟨lines', hrun⟩

/-- With a program in the same lines, the session is still settled, and the program is alike to itself. -/
theorem Settled.recorded {lines : Nat} (h : s.Settled lines) (hpos : 0 < lines) {source : String}
    (hlines : (tokens source).map (Token.placed (within lines)) = tokens source) {p : Parse}
    (hp : parse (tokens source) s.nextId = p) :
    (s.recorded p.nextId (resolve p.statements).lookups).Settled lines ∧
      List.Forall₂ (Stmt.Alike (Skew.diagonal p.nextId lines)) p.statements p.statements := by
  have hended := ended_tokens source
  have hwords := tokens_words source
  have hwithin := within_diagonal hpos s.nextId
  have hplaced := parse_placed hended s.nextId (within lines)
  rw [hlines, hp] at hplaced
  have halike := placed_alike hended hwords hwithin s.nextId s.nextId
  have hparsed := placed_parsed hended hwords s.nextId (within lines)
  have hrange := fun l hl => (hparsed.2.range _ (resolve_lookups hparsed.1 l hl)).2
  have hrecorded := Alike.recorded h (parse (tokens source) 0).nextId (resolve_alike halike).1 hrange
    hrange
  rw [Skew.grow_diagonal] at halike hrecorded
  rw [hplaced]
  exact ⟨hrecorded, halike⟩

theorem Reachable.settled (hs : s.Reachable) : ∃ lines, s.Settled lines := by
  refine hs.induction (P := fun s => ∃ lines, s.Settled lines)
    (fun files includeDir input clock regex => ⟨0, new_settled files includeDir input clock regex⟩)
    (fun s steps source ⟨_, h⟩ => h.run steps source) ?_
  rintro s files input clock ⟨lines, h⟩
  exact ⟨lines, h.nodes, { h.machine with files := rfl, input := rfl, clock := rfl }, h.fresh,
    h.fresh', h.includeDir⟩

theorem execute_output (steps : Nat) (program : List Stmt) (s : Session) :
    (s.execute steps program).2.machine.output = #[] := by
  unfold Session.execute
  split <;> rfl

/-- What a run prints is taken away behind it. -/
theorem run_output (steps : Nat) (source : String) (s : Session) :
    (s.run steps source).2.machine.output = #[] := by
  unfold Session.run
  rcases runScanned_course (lexicalFaults source) (tokens source) s with
    ⟨_, _, _, hrun⟩ | ⟨_, _, hrun⟩
  · rw [hrun]
    rfl
  · rw [hrun]
    exact execute_output _ _ _

theorem Reachable.output (hs : s.Reachable) : s.machine.output = #[] :=
  hs.induction (P := fun s => s.machine.output = #[]) (fun _ _ _ _ _ => rfl)
    (fun s steps source _ => run_output steps source s) fun _ _ _ _ h => h

end Session

end LoxLang
