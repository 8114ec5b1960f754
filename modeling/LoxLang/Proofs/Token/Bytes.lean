import LoxLang.Proofs.Token.Partition
import LoxLang.Token.Bytes
import Mathlib.Data.String.Basic

/-!
Scanning by bytes and by characters is the same. The words of the language are made of ASCII characters, and a
byte of any other character is the byte of none of them, so reading stops between characters wherever it stops;
and as only the line feed has its byte, lines are counted right.
-/

namespace LoxLang

open Lexer (Piece Cut cut cutString cutNumber cutWord cutLineComment cutBlockComment cutPunctuation
  isWordChar single? double? Begins Scans)
open Lexis (placeAfter)
open String (utf8EncodeChar utf8Len)

namespace Bytes

/-- The bytes of a text. -/
def encode (cs : List Char) : List UInt8 :=
  cs.flatMap utf8EncodeChar

/-! ### Characters and their bytes -/

/-- A text is cut in two between characters, and nowhere else. -/
theorem split?_iff {cs front rest : List Char} {n : Nat} :
    split? cs n = some (front, rest) ↔ front ++ rest = cs ∧ utf8Len front = n := by
  fun_induction split? cs n generalizing front with
  | case1 cs =>
    constructor
    · rintro ⟨⟩
      simp
    · rintro ⟨rfl, hsize⟩
      obtain rfl := String.utf8Len_eq_zero.mp hsize
      rfl
  | case2 n =>
    simp only [reduceCtorEq, List.append_eq_nil_iff, false_iff, not_and]
    rintro ⟨rfl, rfl⟩
    simp
  | case3 c cs n hle ih =>
    simp only [Option.map_eq_some_iff, Prod.exists, Prod.map_apply, id_eq, Prod.mk.injEq]
    constructor
    · rintro ⟨front, rest, hsplit, rfl, rfl⟩
      obtain ⟨rfl, hsize⟩ := ih.mp hsplit
      exact ⟨rfl, by rw [String.utf8Len_cons, hsize]; omega⟩
    · rintro ⟨htext, hsize⟩
      cases front with
      | nil => simp at hsize
      | cons d front =>
        obtain ⟨rfl, rfl⟩ := List.cons.inj htext
        rw [String.utf8Len_cons] at hsize
        exact ⟨front, rest, ih.mpr ⟨rfl, by omega⟩, rfl, rfl⟩
  | case4 c cs n hgt =>
    simp only [reduceCtorEq, false_iff, not_and]
    intro htext hsize
    cases front with
    | nil => simp at hsize
    | cons d front =>
      obtain ⟨rfl, rfl⟩ := List.cons.inj htext
      rw [String.utf8Len_cons] at hsize
      omega

theorem slice?_append (before text after : List Char) :
    slice? (before ++ (text ++ after)) (utf8Len before) (utf8Len (before ++ text)) = some text := by
  have hfront : split? (before ++ (text ++ after)) (utf8Len before) = some (before, text ++ after) :=
    split?_iff.mpr ⟨rfl, rfl⟩
  have htext : split? (text ++ after) (utf8Len (before ++ text) - utf8Len before) = some (text, after) :=
    split?_iff.mpr ⟨rfl, by rw [String.utf8Len_append]; omega⟩
  simp only [slice?, hfront, htext, Option.bind_eq_bind, Option.bind_some]
  exact if_pos (by rw [String.utf8Len_append]; omega)

@[simp]
theorem encode_nil : encode [] = [] := rfl

theorem encode_cons (c : Char) (cs : List Char) : encode (c :: cs) = utf8EncodeChar c ++ encode cs :=
  List.flatMap_cons

theorem encode_append (a b : List Char) : encode (a ++ b) = encode a ++ encode b :=
  List.flatMap_append

theorem length_encode (cs : List Char) : (encode cs).length = utf8Len cs := by
  induction cs with
  | nil => rfl
  | cons c cs ih => rw [encode_cons, List.length_append, ih, String.length_utf8EncodeChar,
      String.utf8Len_cons, Nat.add_comm]

theorem encode_toList (source : String) : encode source.toList = source.toByteArray.data.toList := by
  conv_rhs => rw [← String.ofList_toList (s := source), String.toByteArray_ofList, List.utf8Encode,
    List.data_toByteArray, List.toList_toArray]
  rfl

/-- A character is a byte with its own number, or has bytes that are no numbers of ASCII characters. -/
theorem bytes_cases (c : Char) :
    (∃ b : UInt8, b.toNat < 128 ∧ utf8EncodeChar c = [b] ∧ Char.ofUInt8 b = c) ∨
      128 ≤ c.toNat ∧ ∀ b ∈ utf8EncodeChar c, 128 ≤ b.toNat := by
  by_cases hc : c.toNat ≤ 127
  · have hbyte : (UInt8.ofNat c.toNat).toNat = c.toNat := by
      simp only [UInt8.toNat_ofNat']
      omega
    refine .inl ⟨UInt8.ofNat c.toNat, by omega, if_pos hc, ?_⟩
    apply Char.ext
    apply UInt32.toNat_inj.mp
    exact (UInt8.toNat_toUInt32 _).trans hbyte
  · refine .inr ⟨by omega, ?_⟩
    have hwide : ¬c.val.toNat ≤ 127 := hc
    intro b hb
    unfold utf8EncodeChar at hb
    simp only [if_neg hwide] at hb
    split_ifs at hb <;> simp only [List.mem_cons, List.not_mem_nil, or_false] at hb <;>
      rcases hb with rfl | rfl | rfl | rfl <;> simp only [UInt8.toNat_ofNat'] <;> omega

theorem utf8Len_ascii {c : Char} (hc : c.toNat < 128) : utf8Len [c] = 1 := by
  rw [← length_encode, encode_cons]
  rcases bytes_cases c with ⟨b, _, hbytes, _⟩ | ⟨hwide, _⟩
  · rw [hbytes]
    rfl
  · omega

theorem exists_byte (c : Char) : ∃ b bs, utf8EncodeChar c = b :: bs :=
  List.exists_cons_of_ne_nil String.utf8EncodeChar_ne_nil

/-- The character is no ASCII character. -/
def Wide (c : Char) : Prop :=
  128 ≤ c.toNat

instance : DecidablePred Wide := fun _ => Nat.decLe _ _

/-- The test does not tell characters apart that are no ASCII characters. -/
def Plain (p : Char → Bool) : Prop :=
  ∀ c d, Wide c → Wide d → p c = p d

theorem toNat_ofUInt8 (b : UInt8) : (Char.ofUInt8 b).toNat = b.toNat :=
  UInt8.toNat_toUInt32 b

theorem Wide.ne {c d : Char} (h : Wide c) (hd : d.toNat < 128) : c ≠ d := by
  rintro rfl
  exact absurd hd (Nat.not_lt.mpr h)

theorem Wide.not_digit {c : Char} (h : Wide c) : c.isDigit = false := by
  have hnine : ¬c.toNat ≤ 57 := fun hle => absurd (Nat.le_trans h hle) (by decide)
  exact Bool.eq_false_iff.mpr fun hdigit => hnine (Char.isDigit_iff_toNat.mp hdigit).2

theorem Wide.not_wordChar {c : Char} (h : Wide c) : isWordChar c = false := by
  have hwide : 128 ≤ c.toNat := h
  have hscore : c ≠ '_' := h.ne (by decide)
  refine Bool.eq_false_iff.mpr fun hword => ?_
  rcases (Lexer.isWordChar_iff c).mp hword with hinitial | hdigit
  · simp only [Lexis.initial_iff, hscore, or_false] at hinitial
    omega
  · rw [Lexis.digit_iff] at hdigit
    omega

theorem ascii_of_test {p : Char → Bool} (h : ∀ c, Wide c → p c = false) {c : Char} (hc : p c = true) :
    c.toNat < 128 := by
  by_contra hwide
  rw [h c (Nat.le_of_not_lt hwide)] at hc
  cases hc

theorem plain_of_false {p : Char → Bool} (h : ∀ c, Wide c → p c = false) : Plain p :=
  fun c d hc hd => (h c hc).trans (h d hd).symm

theorem plain_digit : Plain Char.isDigit :=
  plain_of_false fun _ => Wide.not_digit

theorem plain_wordChar : Plain isWordChar :=
  plain_of_false fun _ => Wide.not_wordChar

theorem plain_eq {d : Char} (hd : d.toNat < 128) : Plain (· == d) :=
  plain_of_false fun _ hc => beq_false_of_ne (hc.ne hd)

theorem plain_ne {d : Char} (hd : d.toNat < 128) : Plain (· != d) := by
  intro c c' hc hc'
  exact (bne_iff_ne.mpr (hc.ne hd)).trans (bne_iff_ne.mpr (hc'.ne hd)).symm

section Runs

open Reader (onByte)

variable {p : Char → Bool}

theorem onByte_of_mem (hp : Plain p) {c : Char} {b : UInt8} (hb : b ∈ utf8EncodeChar c) :
    onByte p b = p c := by
  rcases bytes_cases c with ⟨d, _, hbytes, rfl⟩ | ⟨hwide, hbytes⟩
  · rw [hbytes, List.mem_singleton] at hb
    rw [hb]
    rfl
  · refine hp _ _ ?_ hwide
    rw [Wide, toNat_ofUInt8]
    exact hbytes b hb

/-- Bytes pass a test as far as characters do. -/
theorem runs_encode (hp : Plain p) (cs : List Char) :
    (encode cs).takeWhile (onByte p) = encode (cs.takeWhile p) ∧
      (encode cs).dropWhile (onByte p) = encode (cs.dropWhile p) := by
  induction cs with
  | nil => exact ⟨rfl, rfl⟩
  | cons c cs ih =>
    rw [encode_cons]
    cases hc : p c with
    | true =>
      have hbytes : ∀ b ∈ utf8EncodeChar c, onByte p b = true := fun b hb => (onByte_of_mem hp hb).trans hc
      rw [List.takeWhile_append_of_pos hbytes, List.dropWhile_append_of_pos hbytes, ih.1, ih.2,
        List.takeWhile_cons_of_pos hc, List.dropWhile_cons_of_pos hc, encode_cons]
      exact ⟨rfl, rfl⟩
    | false =>
      have hc' : ¬p c = true := by simp [hc]
      obtain ⟨b, bs, hbytes⟩ := exists_byte c
      have hb : ¬onByte p b = true := by
        rw [onByte_of_mem hp (c := c) (by simp [hbytes])]
        exact hc'
      rw [hbytes, List.cons_append, List.takeWhile_cons_of_neg hb, List.dropWhile_cons_of_neg hb,
        List.takeWhile_cons_of_neg hc', List.dropWhile_cons_of_neg hc', encode_cons, hbytes]
      exact ⟨rfl, rfl⟩

/-- The next byte passes a test if the next character does. -/
theorem peek_encode (hp : Plain p) (m : Mark) (cs : List Char) :
    Reader.peek ⟨m, encode cs⟩ p = Begins p cs := by
  cases cs with
  | nil => rfl
  | cons c cs =>
    obtain ⟨b, bs, hbytes⟩ := exists_byte c
    rw [encode_cons, hbytes]
    exact onByte_of_mem hp (by simp [hbytes])

end Runs

/-! ### Marks -/

namespace Mark

/-- Behind a text all of whose line feeds are counted. -/
def behind (m : Mark) (cs : List Char) : Mark :=
  (encode cs).foldl next m

/-- Behind the text in front of it. -/
def after (before : List Char) : Mark :=
  start.behind before

theorem behind_append (m : Mark) (a b : List Char) : m.behind (a ++ b) = (m.behind a).behind b := by
  rw [behind, encode_append, List.foldl_append]
  rfl

theorem skip_skip (m : Mark) (a b : Nat) : (m.skip a).skip b = m.skip (a + b) := by
  simp [skip, Nat.add_assoc]

theorem foldl_next {bs : List UInt8} (h : ∀ b ∈ bs, b ≠ 10) (m : Mark) :
    bs.foldl next m = m.skip bs.length := by
  induction bs generalizing m with
  | nil => rfl
  | cons b bs ih =>
    have hb : m.next b = m.skip 1 := if_neg (h b (by simp))
    rw [List.foldl_cons, hb, ih fun d hd => h d (by simp [hd]), skip_skip, List.length_cons, Nat.add_comm]

/-- Only the line feed has its byte. -/
theorem feed_of_mem {c : Char} (h : (10 : UInt8) ∈ utf8EncodeChar c) : c = '\n' := by
  rcases bytes_cases c with ⟨b, _, hbytes, rfl⟩ | ⟨_, hbytes⟩
  · rw [hbytes, List.mem_singleton] at h
    rw [← h]
    rfl
  · exact absurd (hbytes 10 h) (by decide)

theorem behind_eq_skip {cs : List Char} (h : '\n' ∉ cs) (m : Mark) : m.behind cs = m.skip (utf8Len cs) := by
  rw [← length_encode]
  refine foldl_next ?_ m
  rintro b hb rfl
  obtain ⟨c, hc, hbyte⟩ := List.mem_flatMap.mp hb
  exact h (feed_of_mem hbyte ▸ hc)

theorem behind_feed (m : Mark) : m.behind ['\n'] = ⟨m.offset + 1, m.line + 1, m.offset + 1⟩ := rfl

theorem behind_char {c : Char} (h : c ≠ '\n') (m : Mark) : m.behind [c] = m.skip c.utf8Size := by
  rw [behind_eq_skip (by simpa using h.symm)]
  simp

theorem after_append (a b : List Char) : after (a ++ b) = (after a).behind b :=
  behind_append start a b

/-- What a mark knows of the text in front of it. -/
theorem after_eq (before : List Char) :
    ∃ upper line, before = upper ++ line ∧ after before =
      ⟨utf8Len before, before.count '\n', utf8Len upper⟩ ∧ (placeAfter before).column = line.length := by
  induction before using List.reverseRecOn with
  | nil => exact ⟨[], [], rfl, rfl, rfl⟩
  | append_singleton before c ih =>
    obtain ⟨upper, line, htext, hafter, hcolumn⟩ := ih
    rw [after_append, hafter, Lexis.placeAfter_next]
    by_cases hc : c = '\n'
    · subst hc
      refine ⟨before ++ ['\n'], [], by simp, ?_, rfl⟩
      rw [behind_feed, String.utf8Len_append]
      simp [(by decide : Char.utf8Size '\n' = 1)]
    · refine ⟨upper, line ++ [c], by simp [htext], ?_, ?_⟩
      · rw [behind_char hc]
        simp [skip, hc]
      · simp [Position.next, hc, hcolumn]

theorem offset_after (before : List Char) : (after before).offset = utf8Len before := by
  obtain ⟨_, _, _, hafter, _⟩ := after_eq before
  rw [hafter]

theorem line_after (before : List Char) : (after before).line = before.count '\n' := by
  obtain ⟨_, _, _, hafter, _⟩ := after_eq before
  rw [hafter]

/-- The column counts characters, though the scanner counts bytes. -/
theorem position_after (before rest : List Char) :
    (after before).position (before ++ rest) = placeAfter before := by
  obtain ⟨upper, line, htext, hafter, hcolumn⟩ := after_eq before
  have hslice : slice? (before ++ rest) (utf8Len upper) (utf8Len before) = some line := by
    rw [htext, List.append_assoc]
    exact slice?_append upper line rest
  unfold position column
  rw [hafter]
  simp only [hslice, Option.map_some, Option.getD_some, ← hcolumn]
  rfl

end Mark

/-! ### Pieces and their bytes -/

namespace Reader

variable {p : Char → Bool} {c : Char} (before rest : List Char)

/-- Between two characters of a text. -/
def between (before rest : List Char) : Reader :=
  ⟨.after before, encode rest⟩

@[simp]
theorem mark_between : (between before rest).mark = .after before := rfl

theorem skip_between (text : List Char) (h : '\n' ∉ text) :
    (between before (text ++ rest)).skip (utf8Len text) = between (before ++ text) rest := by
  unfold between skip
  rw [Mark.after_append, Mark.behind_eq_skip h, encode_append, ← length_encode, List.drop_left]

/-- One byte further on, the reader is behind an ASCII character. -/
theorem skip_char (hc : c.toNat < 128) (hfeed : c ≠ '\n') :
    (between before (c :: rest)).skip 1 = between (before ++ [c]) rest := by
  have hskip := skip_between before rest [c] (by simpa using hfeed.symm)
  rwa [utf8Len_ascii hc] at hskip

theorem past_between (hp : Plain p) (hfeed : p '\n' = false) :
    (between before rest).past p = between (before ++ rest.takeWhile p) (rest.dropWhile p) := by
  have hrun : '\n' ∉ rest.takeWhile p := fun hmem => by
    have hpass := List.all_eq_true.mp List.all_takeWhile _ hmem
    rw [hfeed] at hpass
    cases hpass
  obtain ⟨htake, hdrop⟩ := runs_encode hp rest
  unfold between past
  rw [htake, hdrop, length_encode, Mark.after_append, Mark.behind_eq_skip hrun]

theorem through_between (hp : Plain p) :
    (between before rest).through p = between (before ++ rest.takeWhile p) (rest.dropWhile p) := by
  obtain ⟨htake, hdrop⟩ := runs_encode hp rest
  unfold between through
  rw [htake, hdrop, Mark.after_append]
  rfl

theorem peek_between (hp : Plain p) : (between before rest).peek p = Begins p rest :=
  peek_encode hp _ rest

theorem offset_between : (between before rest).mark.offset = utf8Len before :=
  Mark.offset_after before

end Reader

open Reader (between)

/-- The piece of a text, and the reader behind it. -/
def reading (before : List Char) (x : Cut) : Piece × Reader :=
  (x.piece, between (before ++ x.taken) x.rest)

section Pieces

variable {c : Char} (before cs : List Char)

theorem string_reads (hc : c.toNat < 128) (hfeed : c ≠ '\n') :
    string (before ++ c :: cs) (between before (c :: cs)) c = some (reading before (cutString c cs)) := by
  have htext := List.takeWhile_append_dropWhile (p := (· != c)) (l := cs)
  unfold string cutString
  rw [Reader.skip_char _ _ hc hfeed, Reader.through_between _ _ (plain_ne hc)]
  cases hrest : cs.dropWhile (· != c) with
  | nil => simp [reading, between]
  | cons q rest =>
    obtain rfl : q = c := by
      have hhead := Lexer.begins_dropWhile (· != c) cs
      rw [hrest] at hhead
      simpa [Begins] using hhead
    generalize cs.takeWhile (· != q) = body at htext ⊢
    rw [hrest] at htext
    have hopen : (between before (q :: cs)).mark.offset + 1 = utf8Len (before ++ [q]) := by
      rw [Reader.offset_between, String.utf8Len_append, utf8Len_ascii hc]
    have hclose : (between (before ++ [q] ++ body ++ [q]) rest).mark.offset - 1 =
        utf8Len (before ++ [q] ++ body) := by
      rw [Reader.offset_between, String.utf8Len_append, utf8Len_ascii hc, Nat.add_sub_cancel]
    have hslice : slice? (before ++ q :: cs) (utf8Len (before ++ [q])) (utf8Len (before ++ [q] ++ body)) =
        some body := by
      rw [← htext]
      simpa using slice?_append (before ++ [q]) body (q :: rest)
    have hmore : (between (before ++ [q] ++ body) (q :: rest)).rest.isEmpty = false := by
      simp [between, encode_cons, String.utf8EncodeChar_ne_nil]
    simp only [hmore, Reader.skip_char _ _ hc hfeed, hopen, hclose, hslice]
    simp [reading]

/-- The literal of a number is that of its text. -/
theorem numberOf_taken (cs : List Char) :
    (cutNumber cs).piece = .token .number (some (numberOf (cutNumber cs).taken)) := by
  rcases Lexer.number_cases cs with ⟨whole, rest, rfl, h⟩ | ⟨whole, fraction, rest, rfl, h⟩
  · obtain ⟨hrun, hbehind⟩ := Lexer.takeWhile_run (b := []) h.digits rfl
    rw [List.append_nil] at hrun hbehind
    simp only [Lexer.cutNumber_whole h, numberOf, hrun, hbehind]
    rfl
  · obtain ⟨hrun, hbehind⟩ := Lexer.takeWhile_run (b := '.' :: fraction) h.digits rfl
    simp only [Lexer.cutNumber_decimals h, numberOf, hrun, hbehind]
    rfl

/-- The bytes of a number end where its characters do. -/
theorem numberEnd_between (hc : c.isDigit = true) : numberEnd (between before (c :: cs)) =
    between (before ++ (cutNumber (c :: cs)).taken) (cutNumber (c :: cs)).rest := by
  have hascii := ascii_of_test (fun _ => Wide.not_digit) hc
  have hfeed : c ≠ '\n' := by
    rintro rfl
    cases hc
  have hpast : ((between before (c :: cs)).skip 1).past Char.isDigit =
      between (before ++ (c :: cs).takeWhile Char.isDigit) ((c :: cs).dropWhile Char.isDigit) := by
    rw [Reader.skip_char _ _ hascii hfeed, Reader.past_between _ _ plain_digit rfl]
    simp [hc]
  unfold numberEnd
  rw [hpast]
  rcases Lexer.number_cases (c :: cs) with ⟨whole, rest, hcs, h⟩ | ⟨whole, fraction, rest, hcs, h⟩
  · obtain ⟨hrun, hbehind⟩ := Lexer.takeWhile_run h.digits h.ended
    rw [hcs, Lexer.cutNumber_whole h, hrun, hbehind]
    refine if_neg fun hmore => ?_
    rw [Bool.and_eq_true, Reader.peek_between _ _ (plain_eq (by decide))] at hmore
    obtain ⟨hpoint, hdigit⟩ := hmore
    obtain ⟨d, tail, rfl, hd⟩ := Lexer.begins_iff.mp hpoint
    obtain rfl : d = '.' := by simpa using hd
    rw [Reader.skip_char _ _ (by decide) (by decide), Reader.peek_between _ _ plain_digit,
      h.noFraction tail rfl] at hdigit
    cases hdigit
  · obtain ⟨hrun, hbehind⟩ := Lexer.takeWhile_run h.digits (b := '.' :: (fraction ++ rest)) rfl
    obtain ⟨hrun', hbehind'⟩ := Lexer.takeWhile_run h.digits' h.ended
    have hpoint : (between (before ++ whole) ('.' :: (fraction ++ rest))).peek (· == '.') = true :=
      Reader.peek_between _ _ (plain_eq (by decide))
    have hdigit : Begins Char.isDigit (fraction ++ rest) = true := by
      obtain ⟨d, digits, rfl⟩ := List.exists_cons_of_ne_nil h.nonempty
      exact h.digits' d (by simp)
    rw [hcs, Lexer.cutNumber_decimals h, hrun, hbehind]
    simp only [hpoint, Reader.skip_char _ _ (by decide : '.'.toNat < 128) (by decide),
      Reader.peek_between _ _ plain_digit, hdigit, Reader.past_between _ _ plain_digit rfl, hrun', hbehind']
    simp

theorem number_reads (hc : c.isDigit = true) :
    number (before ++ c :: cs) (between before (c :: cs)) =
      some (reading before (cutNumber (c :: cs))) := by
  have hslice : slice? (before ++ c :: cs) (between before (c :: cs)).mark.offset
      (between (before ++ (cutNumber (c :: cs)).taken) (cutNumber (c :: cs)).rest).mark.offset =
        some (cutNumber (c :: cs)).taken := by
    rw [Reader.offset_between, Reader.offset_between]
    have hslice := slice?_append before (cutNumber (c :: cs)).taken (cutNumber (c :: cs)).rest
    rwa [(Lexer.cutNumber_from hc).text] at hslice
  unfold number
  rw [numberEnd_between before cs hc]
  simp only [hslice]
  simp [reading, numberOf_taken]

/-- The characters of a word have the numbers that its bytes are. -/
theorem chars_encode {word : List Char} (h : ∀ c ∈ word, isWordChar c = true) :
    (encode word).map Char.ofUInt8 = word := by
  induction word with
  | nil => rfl
  | cons c word ih =>
    have hascii := ascii_of_test (fun _ => Wide.not_wordChar) (h c (by simp))
    rw [encode_cons, List.map_append, ih fun d hd => h d (by simp [hd])]
    rcases bytes_cases c with ⟨b, _, hbytes, rfl⟩ | ⟨hwide, _⟩
    · rw [hbytes]
      rfl
    · omega

theorem word_reads (hc : isWordChar c = true) :
    word (between before (c :: cs)) = reading before (cutWord (c :: cs)) := by
  have hascii := ascii_of_test (fun _ => Wide.not_wordChar) hc
  have hfeed : c ≠ '\n' := by
    rintro rfl
    cases hc
  have hstop : ((between before (c :: cs)).skip 1).past isWordChar =
      between (before ++ (c :: cs).takeWhile isWordChar) ((c :: cs).dropWhile isWordChar) := by
    rw [Reader.skip_char _ _ hascii hfeed, Reader.past_between _ _ plain_wordChar rfl]
    simp [hc]
  have htext := List.takeWhile_append_dropWhile (p := isWordChar) (l := c :: cs)
  have hletters : ∀ d ∈ (c :: cs).takeWhile isWordChar, isWordChar d = true :=
    fun _ => List.all_eq_true.mp List.all_takeWhile _
  have hbytes : (between before (c :: cs)).rest.take (utf8Len (before ++ (c :: cs).takeWhile isWordChar) -
      utf8Len before) = encode ((c :: cs).takeWhile isWordChar) := by
    have hall : (between before (c :: cs)).rest =
        encode ((c :: cs).takeWhile isWordChar) ++ encode ((c :: cs).dropWhile isWordChar) := by
      rw [← encode_append, htext]
      rfl
    rw [String.utf8Len_append, Nat.add_sub_cancel_left, ← length_encode, hall, List.take_left]
  unfold word
  rw [hstop]
  simp only [Reader.offset_between, hbytes, chars_encode hletters]
  rfl

theorem lineComment_reads :
    ((between before ('/' :: '/' :: cs)).skip 2).past (· != '\n') =
      between (before ++ (cutLineComment cs).taken) (cutLineComment cs).rest := by
  have hskip : (between before ('/' :: '/' :: cs)).skip 2 = between (before ++ ['/', '/']) cs :=
    Reader.skip_between before cs ['/', '/'] (by decide)
  rw [hskip, Reader.past_between _ _ (plain_ne (by decide)) rfl, List.append_assoc]
  rfl

/-- An ASCII character is in front where its byte is. -/
theorem encode_eq_cons {b : UInt8} {bs : List UInt8} (hb : b.toNat < 128) (h : encode cs = b :: bs) :
    ∃ rest, cs = Char.ofUInt8 b :: rest ∧ bs = encode rest := by
  cases cs with
  | nil => cases h
  | cons c rest =>
    rw [encode_cons] at h
    rcases bytes_cases c with ⟨d, _, hbytes, rfl⟩ | ⟨_, hbytes⟩
    · rw [hbytes] at h
      obtain ⟨rfl, rfl⟩ := List.cons.inj h
      exact ⟨rest, rfl, rfl⟩
    · obtain ⟨d, ds, hd⟩ := exists_byte c
      rw [hd] at h
      obtain ⟨rfl, _⟩ := List.cons.inj h
      have hwide := hbytes d (by simp [hd])
      omega

/-- Bytes of which no sign of a comment is made. -/
theorem closeComment_wide {us : List UInt8} (h : ∀ b ∈ us, 128 ≤ b.toNat) (depth : Nat) (m : Mark)
    (bs : List UInt8) : closeComment depth m (us ++ bs) = closeComment depth (us.foldl Mark.next m) bs := by
  induction us generalizing m with
  | nil => rfl
  | cons b us ih =>
    have hb := h b (by simp)
    rw [List.cons_append, closeComment.eq_5, ih fun d hd => h d (by simp [hd])]
    · rfl
    · rintro _ rfl
      exact absurd hb (by decide)
    · rintro _ _ rfl
      exact absurd hb (by decide)
    · rintro _ _ _ rfl
      exact absurd hb (by decide)

/-- The bytes of a comment end where its characters do. -/
theorem closeComment_encode (depth : Nat) (seen : List Char) (m : Mark) :
    (Lexer.closeComment depth seen cs = none ∧
        closeComment depth m (encode cs) = (false, ⟨m.behind cs, []⟩)) ∨
      ∃ body rest, cs = body ++ rest ∧
        Lexer.closeComment depth seen cs = some (seen.reverse ++ body, rest) ∧
          closeComment depth m (encode cs) = (true, ⟨m.behind body, encode rest⟩) := by
  fun_induction Lexer.closeComment depth seen cs generalizing m with
  | case1 => exact .inl ⟨rfl, rfl⟩
  | case2 depth seen cs ih =>
    rcases ih (m.skip 2) with ⟨hchars, hbytes⟩ | ⟨body, rest, rfl, hchars, hbytes⟩
    · exact .inl ⟨hchars, hbytes⟩
    · exact .inr ⟨'/' :: '*' :: body, rest, rfl, by simpa using hchars, hbytes⟩
  | case3 seen cs => exact .inr ⟨['*', '/'], cs, rfl, by simp, rfl⟩
  | case4 depth seen cs ih =>
    rcases ih (m.skip 2) with ⟨hchars, hbytes⟩ | ⟨body, rest, rfl, hchars, hbytes⟩
    · exact .inl ⟨hchars, hbytes⟩
    · exact .inr ⟨'*' :: '/' :: body, rest, rfl, by simpa using hchars, hbytes⟩
  | case5 depth seen c cs hopen hclose hclose' ih =>
    have hstep : closeComment depth m (encode (c :: cs)) = closeComment depth (m.behind [c]) (encode cs) := by
      have hbehind : m.behind [c] = (utf8EncodeChar c).foldl Mark.next m := by simp [Mark.behind, encode]
      rw [hbehind, encode_cons]
      rcases bytes_cases c with ⟨b, _, hbytes, rfl⟩ | ⟨_, hbytes⟩
      · rw [hbytes, List.singleton_append, closeComment.eq_5]
        · rfl
        · rintro bs rfl hbs
          obtain ⟨rest, rfl, _⟩ := encode_eq_cons cs (by decide) hbs
          exact hopen rest rfl rfl
        · rintro bs rfl rfl hbs
          obtain ⟨rest, rfl, _⟩ := encode_eq_cons cs (by decide) hbs
          exact hclose rest rfl rfl rfl
        · rintro depth' bs rfl rfl hbs
          obtain ⟨rest, rfl, _⟩ := encode_eq_cons cs (by decide) hbs
          exact hclose' depth' rest rfl rfl rfl
      · exact closeComment_wide hbytes depth m (encode cs)
    rw [hstep]
    rcases ih (m.behind [c]) with ⟨hchars, hbytes⟩ | ⟨body, rest, rfl, hchars, hbytes⟩
    · exact .inl ⟨hchars, by rw [hbytes, ← Mark.behind_append, List.singleton_append]⟩
    · exact .inr ⟨c :: body, rest, rfl, by simpa using hchars,
        by rw [hbytes, ← Mark.behind_append, List.singleton_append]⟩

theorem blockComment_reads :
    blockComment (between before ('/' :: '*' :: cs)) = reading before (cutBlockComment cs) := by
  have hskip : (between before ('/' :: '*' :: cs)).skip 2 = between (before ++ ['/', '*']) cs :=
    Reader.skip_between before cs ['/', '*'] (by decide)
  unfold blockComment cutBlockComment
  rw [hskip]
  rcases closeComment_encode cs 0 [] (Mark.after (before ++ ['/', '*'])) with
    ⟨hchars, hbytes⟩ | ⟨body, rest, rfl, hchars, hbytes⟩
  · simp only [between, hchars, hbytes, reading, ← Mark.after_append]
    simp
  · simp only [between, hchars, hbytes, reading, ← Mark.after_append]
    simp

theorem unsupported_reads (hfeed : c ≠ '\n') :
    unsupported (before ++ c :: cs) (between before (c :: cs)) =
      some (reading before ⟨.fault (.unsupported c), [c], cs⟩) := by
  have hsplit : split? (before ++ c :: cs) (utf8Len before) = some (before, c :: cs) :=
    split?_iff.mpr ⟨rfl, rfl⟩
  have hskip : (between before (c :: cs)).skip c.utf8Size = between (before ++ [c]) cs := by
    have hskip := Reader.skip_between before cs [c] (by simpa using hfeed.symm)
    simpa using hskip
  unfold unsupported
  rw [Reader.offset_between, hsplit]
  simp [reading, hskip]

theorem lone_reads (hc : c.toNat < 128) (hfeed : c ≠ '\n') :
    lone (before ++ c :: cs) (between before (c :: cs)) c =
      some (reading before ((cutPunctuation c []).before cs)) := by
  unfold lone
  cases hkind : single? c with
  | some kind =>
    have hcut : (cutPunctuation c []).before cs = ⟨.token kind none, [c], cs⟩ := by
      unfold cutPunctuation
      cases double? c <;> simp [hkind, Cut.before]
    rw [hcut]
    simp [reading, Reader.skip_char _ _ hc hfeed]
  | none =>
    have hcut : (cutPunctuation c []).before cs = ⟨.fault (.unsupported c), [c], cs⟩ := by
      unfold cutPunctuation
      cases double? c <;> simp [hkind, Cut.before]
    rw [hcut]
    exact unsupported_reads before cs hfeed

theorem punctuation_reads (hc : c.toNat < 128) (hfeed : c ≠ '\n') :
    punctuation (before ++ c :: cs) (between before (c :: cs)) c =
      some (reading before (cutPunctuation c cs)) := by
  have hpeek : ((between before (c :: cs)).skip 1).peek (· == '=') = Begins (· == '=') cs := by
    rw [Reader.skip_char _ _ hc hfeed, Reader.peek_between _ _ (plain_eq (by decide))]
  unfold punctuation
  rw [hpeek]
  cases hkind : double? c with
  | none =>
    rw [Lexer.cutPunctuation_single (.inl hkind)]
    exact lone_reads before cs hc hfeed
  | some kind =>
    cases hequal : Begins (· == '=') cs with
    | false =>
      rw [Lexer.cutPunctuation_single (.inr hequal)]
      exact lone_reads before cs hc hfeed
    | true =>
      obtain ⟨d, rest, rfl, hd⟩ := Lexer.begins_iff.mp hequal
      obtain rfl : d = '=' := by simpa using hd
      have hskip : (between before (c :: '=' :: rest)).skip 2 = between (before ++ [c, '=']) rest := by
        have hsize : utf8Len [c, '='] = 2 := by
          rw [← List.singleton_append, String.utf8Len_append, utf8Len_ascii hc]
          rfl
        rw [← hsize]
        exact Reader.skip_between before rest [c, '='] (by simpa using hfeed.symm)
      rw [Lexer.cutPunctuation_double hkind]
      simp [reading, hskip]

theorem stroke_reads : stroke (before ++ '/' :: cs) (between before ('/' :: cs)) =
    some (reading before (cut '/' cs)) := by
  have hpeek {d : Char} (hd : d.toNat < 128) :
      ((between before ('/' :: cs)).skip 1).peek (· == d) = Begins (· == d) cs := by
    rw [Reader.skip_char _ _ (by decide) (by decide), Reader.peek_between _ _ (plain_eq hd)]
  unfold stroke
  rw [hpeek (by decide), hpeek (by decide)]
  cases hline : Begins (· == '/') cs with
  | true =>
    obtain ⟨d, rest, rfl, hd⟩ := Lexer.begins_iff.mp hline
    obtain rfl : d = '/' := by simpa using hd
    have hcut : cut '/' ('/' :: rest) = cutLineComment rest := rfl
    rw [if_pos rfl, lineComment_reads, hcut]
    rfl
  | false =>
    cases hblock : Begins (· == '*') cs with
    | true =>
      obtain ⟨d, rest, rfl, hd⟩ := Lexer.begins_iff.mp hblock
      obtain rfl : d = '*' := by simpa using hd
      have hcut : cut '/' ('*' :: rest) = cutBlockComment rest := rfl
      rw [if_neg (by decide), if_pos rfl, blockComment_reads, hcut]
    | false =>
      rw [if_neg (by decide), if_neg (by decide), Lexer.cut_slash hline hblock]
      exact punctuation_reads before cs (by decide) (by decide)

/-- An ASCII character is its byte. -/
theorem step_ascii {b : UInt8} (hb : b.toNat < 128) (hbytes : utf8EncodeChar (Char.ofUInt8 b) = [b]) :
    step (before ++ Char.ofUInt8 b :: cs) (between before (Char.ofUInt8 b :: cs)) b =
      some (reading before (cut (Char.ofUInt8 b) cs)) := by
  have hascii : (Char.ofUInt8 b).toNat < 128 := by rwa [toNat_ofUInt8]
  have hgap : (⟨(between before (Char.ofUInt8 b :: cs)).mark.next b,
      (between before (Char.ofUInt8 b :: cs)).rest.drop 1⟩ : Reader) =
        between (before ++ [Char.ofUInt8 b]) cs := by
    simp [between, Mark.after_append, Mark.behind, encode_cons, hbytes]
  unfold step
  generalize Char.ofUInt8 b = c at hascii hgap hbytes ⊢
  by_cases hslash : c = '/'
  · subst hslash
    exact stroke_reads before cs
  · rw [Lexer.cut_of_ne_slash hslash]
    simp only [beq_false_of_ne hslash, Bool.false_eq_true, if_false]
    split_ifs with hblank hquote hdigit hword
    · rw [hgap]
      rfl
    · exact string_reads before cs hascii (by rintro rfl; exact hblank rfl)
    · exact number_reads before cs hdigit
    · rw [word_reads before cs hword]
    · exact punctuation_reads before cs hascii (by rintro rfl; exact hblank rfl)

/-- A character that is no ASCII character begins nothing. -/
theorem Wide.single? {c : Char} (h : Wide c) : single? c = none := by
  unfold Lexer.single?
  split <;> first | rfl | exact absurd h (by decide)

theorem Wide.double? {c : Char} (h : Wide c) : double? c = none := by
  unfold Lexer.double?
  split <;> first | rfl | exact absurd h (by decide)

theorem Wide.cut {c : Char} (h : Wide c) (cs : List Char) :
    cut c cs = ⟨.fault (.unsupported c), [c], cs⟩ := by
  rw [Lexer.cut_of_ne_slash (h.ne (by decide))]
  simp [h.ne, h.not_digit, h.not_wordChar, cutPunctuation, h.single?, h.double?]

theorem Wide.step {b : UInt8} (h : Wide (Char.ofUInt8 b)) (cs : List Char) (r : Reader) :
    step cs r b = unsupported cs r := by
  unfold Bytes.step
  simp [h.ne, h.not_digit, h.not_wordChar, punctuation, lone, h.single?, h.double?]

/-- A piece of bytes is a piece of characters. -/
theorem step_reads {b : UInt8} {bs : List UInt8} (h : encode (c :: cs) = b :: bs) :
    step (before ++ c :: cs) (between before (c :: cs)) b = some (reading before (cut c cs)) := by
  rw [encode_cons] at h
  rcases bytes_cases c with ⟨d, hascii, hbytes, rfl⟩ | ⟨hwide, hbytes⟩
  · obtain ⟨rfl, _⟩ : d = b ∧ encode cs = bs := by simpa [hbytes] using h
    exact step_ascii before cs hascii hbytes
  · obtain ⟨d, ds, hd⟩ := exists_byte c
    obtain ⟨rfl, _⟩ : d = b ∧ ds ++ encode cs = bs := by simpa [hd] using h
    have hbyte : Wide (Char.ofUInt8 d) := by
      rw [Wide, toNat_ofUInt8]
      exact hbytes d (by simp [hd])
    rw [hbyte.step, Wide.cut hwide]
    exact unsupported_reads before cs (Wide.ne hwide (by decide))

end Pieces

/-! ### Texts and their items -/

/-- The item stands in the text from one byte to another, between characters, and a token has the text that
stands there. -/
def Found.In (f : Found) (source : List Char) : Prop :=
  ∃ before text after, source = before ++ (text ++ after) ∧ f.start = utf8Len before ∧
    f.stop = utf8Len (before ++ text) ∧ ∀ t, f.item = .ok t → t.lexeme.toList = text

/-- The items stand one behind the other. -/
def Ordered (items : List Found) : Prop :=
  items.Pairwise fun f g => f.stop ≤ g.start

/-- A piece of bytes gives the items that the piece of characters gives, and they stand where it does. -/
theorem found_reads {cs : List Char} {x : Cut} (hfrom : x.From cs) (before : List Char) :
    ∃ items, found (before ++ cs) (.after before) (.after (before ++ x.taken)) x.piece = some items ∧
      items.map Found.item = x.items (placeAfter before) ∧ Ordered items ∧
      ∀ f ∈ items, f.In (before ++ cs) ∧ f.start = utf8Len before ∧ f.stop = utf8Len (before ++ x.taken) := by
  obtain ⟨piece, taken, rest⟩ := x
  obtain rfl : taken ++ rest = cs := hfrom.text
  have hstart : (Mark.after before).position (before ++ (taken ++ rest)) = placeAfter before :=
    Mark.position_after before (taken ++ rest)
  have hstop : (Mark.after (before ++ taken)).position (before ++ (taken ++ rest)) =
      (placeAfter before).advance taken := by
    rw [← List.append_assoc, Mark.position_after, Lexis.placeAfter_append]
  have hin {item : Except Diagnostic Token} (hlexeme : ∀ t, item = .ok t → t.lexeme.toList = taken) :
      Found.In ⟨item, utf8Len before, utf8Len (before ++ taken)⟩ (before ++ (taken ++ rest)) :=
    ⟨before, taken, rest, rfl, rfl, rfl, hlexeme⟩
  have hslice := slice?_append before taken rest
  simp only [Mark.offset_after, found, hstart, hstop]
  cases piece with
  | gap => exact ⟨[], rfl, rfl, .nil, by simp⟩
  | token kind literal =>
    simp only [hslice, Option.bind_eq_bind, Option.bind_some]
    refine ⟨_, rfl, rfl, List.pairwise_singleton _ _, ?_⟩
    intro f hf
    obtain rfl := List.mem_singleton.mp hf
    refine ⟨hin ?_, rfl, rfl⟩
    rintro t ⟨⟩
    simp
  | fault cause =>
    refine ⟨_, rfl, rfl, List.pairwise_singleton _ _, ?_⟩
    intro f hf
    obtain rfl := List.mem_singleton.mp hf
    exact ⟨hin nofun, rfl, rfl⟩

theorem scanFrom_reads {start : Position} {cs : List Char} {items : List (Except Diagnostic Token)}
    (h : Scans start cs items) (before : List Char) (hstart : start = placeAfter before) {n : Nat}
    (hn : utf8Len cs ≤ n) :
    ∃ all, scanFrom (before ++ cs) n (between before cs) = some all ∧ all.map Found.item = items ∧
      Ordered all ∧ ∀ f ∈ all, f.In (before ++ cs) ∧ utf8Len before ≤ f.start := by
  induction h generalizing before n with
  | done start =>
    subst hstart
    refine ⟨[⟨.ok (.endOfFile (before.count '\n')), utf8Len before, utf8Len before⟩], ?_, rfl,
      List.pairwise_singleton _ _, ?_⟩
    · rw [scanFrom.eq_def, ← Mark.line_after, ← Mark.offset_after]
      rfl
    · intro f hf
      obtain rfl := List.mem_singleton.mp hf
      refine ⟨⟨before, [], [], rfl, rfl, by simp, ?_⟩, Nat.le_refl _⟩
      rintro t ⟨⟩
      rfl
  | @piece start c cs items _ ih =>
    subst hstart
    have hfrom := Lexer.cut_from c cs
    have hsize := congrArg utf8Len hfrom.text
    have htaken : utf8Len (cut c cs).taken ≠ 0 := fun h => hfrom.nonempty (String.utf8Len_eq_zero.mp h)
    rw [String.utf8Len_append] at hsize
    obtain ⟨n, rfl⟩ : ∃ k, n = k + 1 := ⟨n - 1, by omega⟩
    obtain ⟨first, hfirst, hitems, hordered, hin⟩ := found_reads hfrom before
    obtain ⟨more, hmore, hitems', hordered', hin'⟩ :=
      ih (before ++ (cut c cs).taken) (Lexis.placeAfter_append _ _).symm (n := n) (by omega)
    rw [List.append_assoc, hfrom.text] at hmore hin'
    refine ⟨first ++ more, ?_, ?_, ?_, ?_⟩
    · obtain ⟨b, bs, hbytes⟩ : ∃ b bs, encode (c :: cs) = b :: bs :=
        List.exists_cons_of_ne_nil (by simp [encode_cons, String.utf8EncodeChar_ne_nil])
      have hstep := step_reads before cs hbytes
      unfold between at hstep ⊢
      rw [hbytes] at hstep ⊢
      rw [scanFrom, hstep]
      simp only [Option.bind_eq_bind, Option.bind_some, reading, Reader.mark_between, hfirst, hmore]
      rfl
    · rw [List.map_append, hitems, hitems']
    · refine List.pairwise_append.mpr ⟨hordered, hordered', fun f hf g hg => ?_⟩
      rw [(hin f hf).2.2]
      exact (hin' g hg).2
    · intro f hf
      rcases List.mem_append.mp hf with hf | hf
      · exact ⟨(hin f hf).1, Nat.le_of_eq (hin f hf).2.1.symm⟩
      · refine ⟨(hin' f hf).1, Nat.le_trans ?_ (hin' f hf).2⟩
        rw [String.utf8Len_append]
        exact Nat.le_add_right _ _

end Bytes

/-- A scanner that reads the bytes of a text never takes a character apart, and finds the items that the text
is scanned into. They stand one behind the other; the bytes of each of them begin and end between characters,
and those of a token are the bytes of its text. -/
theorem scan_bytes (source : String) :
    ∃ all, Bytes.scan source = some all ∧ all.map Bytes.Found.item = (scan source).toList ∧
      Bytes.Ordered all ∧ ∀ f ∈ all, f.In source.toList := by
  have hsize : utf8Len source.toList ≤ source.utf8ByteSize := by
    rw [← Bytes.length_encode, Bytes.encode_toList]
    exact Nat.le_of_eq Array.length_toList
  unfold Bytes.scan
  rw [← Bytes.encode_toList]
  obtain ⟨all, hscan, hitems, hordered, hin⟩ := Bytes.scanFrom_reads (scan_scans source) [] rfl hsize
  exact ⟨all, hscan, hitems, hordered, fun f hf => (hin f hf).1⟩

/-- The quotes and the letter between them are four bytes. -/
example : (Bytes.scan "\"\u00e9\" x").map (·.map fun f => (f.start, f.stop)) =
    some [(0, 4), (5, 6), (6, 6)] := by
  decide +kernel

end LoxLang
