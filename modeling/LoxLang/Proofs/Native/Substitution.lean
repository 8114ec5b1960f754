import LoxLang.Proofs.Native.Calls
import LoxLang.Proofs.Pattern.Extents
import LoxLang.Proofs.Pattern.Replacement

/-!
Replacing the matches of a pattern in a text, with any engine that does what is documented of engines. The text between
the matches is copied, and in the place of each match stands what the replacement means for it. Only a backslash in front
of digits refers to a group; dollar signs and braces, which mean something in the template, stand for themselves in the
replacement.
-/

namespace LoxLang.Native

open Pattern (Replaced)
open Replacement (Part Reads)

variable {source : String} {p : Pattern.Matcher} {m : Machine}

theorem pattern_string (hp : m.regex.compile source = .ok p) : pattern m.regex (.string source) = .ok p := by
  have hstring : string (.string source) = .ok source := rfl
  simp only [pattern, hstring, bind, Except.bind, hp]
  rfl

/-- Replacing gives what the engine makes of the template of the replacement. -/
theorem gives_replaceAll (hp : m.regex.compile source = .ok p) (replacement text : String) :
    reSub.Gives [.string source, .string replacement, .string text] m
      (.string (String.ofList (p.replaceAll text.toList.toArray (templateOf replacement.toList)))) m := by
  refine gives_of_answer (a := .value (.string _)) rfl rfl ?_
  change some (do
    let p ← pattern m.regex (.string source)
    return Answer.value (.string (String.ofList
      (p.replaceAll text.toList.toArray (templateOf replacement.toList))))) = _
  rw [pattern_string hp]
  rfl

/-- Every replacement has one reading as parts. With an engine that does what is documented and a pattern that it reads,
the template that is made of the replacement stands for the text of these parts in each match, a call gives the text in
which every match is replaced by the text of the parts, and the replacement that refers to the whole match gives the text
itself. -/
theorem replacement_means_its_parts (hregex : m.regex.Documented) (hp : m.regex.compile source = .ok p)
    (replacement text : String) :
    let chars := text.toList.toArray
    ∃ parts, (∀ parts', Reads replacement.toList parts' ↔ parts' = parts) ∧
      (∀ found ∈ p.all chars, p.expand chars found (templateOf replacement.toList) =
        parts.flatMap (Part.text (found.groupChars chars))) ∧
      (∃ result, Replaced (fun found => parts.flatMap (Part.text (found.groupChars chars))) 0 (p.all chars)
          text.toList result ∧
        reSub.Gives [.string source, .string replacement, .string text] m (.string (String.ofList result)) m) ∧
      reSub.Gives [.string source, .string "\\0", .string text] m (.string text) m := by
  intro chars
  have hdocumented := hregex source p hp
  have hexpand : ∀ {replacement : String} {parts : List Part}, Reads replacement.toList parts →
      ∀ found ∈ p.all chars, p.expand chars found (templateOf replacement.toList) =
        parts.flatMap (Part.text (found.groupChars chars)) :=
    fun hreads found hfound => hreads.expand_templateOf (hdocumented.expands chars found hfound)
  obtain ⟨parts, hparts⟩ := Reads.exists_parts replacement.toList
  refine ⟨parts, fun parts' => ⟨fun h => h.unique hparts, fun h => h ▸ hparts⟩, hexpand hparts, ?_, ?_⟩
  · have hreplaced := hdocumented.replaces chars (templateOf replacement.toList)
    exact ⟨_, hreplaced.congr (hexpand hparts), gives_replaceAll hp replacement text⟩
  · have hzero : Reads "\\0".toList [.group 0] :=
      @Reads.group ['0'] [] _ (by simp) (by simp) (by simp) .done
    have hsame : p.replaceAll chars (templateOf "\\0".toList) = text.toList := by
      refine (hdocumented.replaces chars (templateOf "\\0".toList)).same rfl fun found hfound => ?_
      rw [hexpand hzero found hfound]
      exact List.append_nil _
    have hself := gives_replaceAll hp "\\0" text
    rwa [hsame, String.ofList_toList] at hself

/-- A dollar sign between a reference and a digit is a dollar sign. -/
theorem replacement_means_its_parts_dollar :
    let m : Machine := { (default : Machine) with regex := .standard }
    m.regex.Documented ∧ ∃ p, m.regex.compile "(a)|b" = .ok p ∧
      Reads "\\1$1".toList [.group 1, .char '$', .char '1'] ∧
      ∃ result, Replaced (fun found => found.groupChars #['a', 'b'] 1 ++ ['$', '1']) 0 (p.all #['a', 'b'])
          ['a', 'b'] result ∧
        reSub.Gives [.string "(a)|b", .string "\\1$1", .string "ab"] m (.string (String.ofList result)) m := by
  intro m
  have hregex : m.regex.Documented := Pattern.Engine.standard_documented
  obtain ⟨p, hp⟩ : ∃ p, Pattern.ofString? "(a)|b" = some p := by
    rw [← Option.isSome_iff_exists]
    decide +kernel
  have hcompile : m.regex.compile "(a)|b" = .ok p.matcher := Pattern.Engine.standard_compile.mpr ⟨p, hp, rfl⟩
  obtain ⟨parts, hparts, -, ⟨result, hresult, hgives⟩, -⟩ :=
    replacement_means_its_parts hregex hcompile "\\1$1" "ab"
  have hreads : Reads "\\1$1".toList [.group 1, .char '$', .char '1'] :=
    @Reads.group ['1'] ['$', '1'] _ (by simp) (by simp) (by simp)
      (.char (by simp) (.char (by simp) .done))
  obtain rfl := (hparts _).mp hreads
  exact ⟨hregex, _, hcompile, hreads, result, by simpa [Part.text] using hresult, hgives⟩

end LoxLang.Native
