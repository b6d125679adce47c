import Mathlib.Data.List.TakeWhile
import Mathlib.Logic.Function.Basic
import Pseudoscribe.Backend.Embedded
import Pseudoscribe.Proofs.Answer.Soundness
import Pseudoscribe.Proofs.Text.Pieces

/-!
# Local models fail closed

A local model answers with code only if everything fits: its revision is fixed, its name and its revision are each one
step of a path, and the one file below these steps is a manifest for just this model and this revision, in bounds and
for the language asked for.  Nothing but this file is looked at, and if the revision or a name is refused, none is.
-/

namespace Pseudoscribe

namespace Text

theorem isBlank_of_trim_eq_nil {cs : List Char} (h : trim cs = []) : isBlank cs = true := by
  have hdrop : ∀ {ds : List Char}, ds.dropWhile isSpace = [] → isBlank ds = true :=
    fun h => List.all_eq_true.2 (List.dropWhile_eq_nil_iff.1 h)
  unfold trim trimEnd dropEndWhile at h
  have hend := hdrop (List.reverse_eq_nil_iff.1 h)
  by_contra hblank
  have hne : trimStart cs ≠ [] := mt hdrop hblank
  -- what is left begins with a character that is no blank
  have hfirst := List.head_dropWhile_not isSpace hne
  have hmem : (trimStart cs).head hne ∈ (trimStart cs).reverse := List.mem_reverse.2 (List.head_mem hne)
  exact absurd (List.all_eq_true.1 hend _ hmem) (Bool.eq_false_iff.1 hfirst)

theorem trim_eq_nil_iff {cs : List Char} : trim cs = [] ↔ isBlank cs = true :=
  ⟨isBlank_of_trim_eq_nil, trim_eq_nil⟩

/-- Texts are one word if they are the same in capitals. -/
theorem isWord_iff {word : String} {cs : List Char} : isWord word cs = true ↔ upper cs = upper word.toList := by
  unfold isWord upper
  rw [beq_iff_eq, String.ofList_inj]

end Text

/-! ## What is asked of a model -/

namespace Revision

/-- The name of one fixed revision: it is not blank, and in capitals and without the blanks on either side it is none
of the names that move. -/
structure Pinned (revision : String) : Prop where
  notBlank : Text.isBlank revision.toList = false
  fixed : ∀ name ∈ moving, Text.upper (Text.trim revision.toList) ≠ Text.upper name.toList

theorem isUnpinned_eq_false_iff {revision : String} : isUnpinned revision = false ↔ Pinned revision := by
  have hempty : (Text.trim revision.toList).isEmpty = false ↔ Text.isBlank revision.toList = false := by
    rw [← Bool.not_eq_true, ← Bool.not_eq_true, List.isEmpty_iff, Text.trim_eq_nil_iff]
  have hmoving : (moving.any (Text.isWord · (Text.trim revision.toList))) = false ↔
      ∀ name ∈ moving, Text.upper (Text.trim revision.toList) ≠ Text.upper name.toList := by
    rw [List.any_eq_false]
    simp only [Text.isWord_iff, ne_eq]
  unfold isUnpinned
  rw [Bool.or_eq_false_iff, hempty, hmoving]
  exact ⟨fun h => ⟨h.1, h.2⟩, fun h => ⟨h.1, h.2⟩⟩

end Revision

namespace LocalModel

/-- A text that is one step of a path, and a step down. -/
structure IsStep (part : String) : Prop where
  notEmpty : part ≠ ""
  notHere : part ≠ "."
  notUp : part ≠ ".."
  slash : '/' ∉ part.toList
  backslash : '\\' ∉ part.toList

theorem isPathPart_iff {part : String} : isPathPart part = true ↔ IsStep part := by
  unfold isPathPart
  simp only [Bool.and_eq_true, bne_iff_ne, Bool.not_eq_true', List.any_eq_false, Bool.or_eq_true, beq_iff_eq, not_or]
  constructor
  · rintro ⟨⟨⟨hempty, hhere⟩, hup⟩, hchars⟩
    exact ⟨hempty, hhere, hup, fun h => (hchars _ h).1 rfl, fun h => (hchars _ h).2 rfl⟩
  · intro h
    refine ⟨⟨⟨h.notEmpty, h.notHere⟩, h.notUp⟩, fun c hc => ⟨?_, ?_⟩⟩
    · rintro rfl
      exact h.slash hc
    · rintro rfl
      exact h.backslash hc

/-- The names of a model lead to one manifest. -/
structure Named (m : LocalModel) : Prop where
  pinned : Revision.Pinned m.revision
  model : IsStep m.model
  revision : IsStep m.revision

theorem named_of_not_refused {m : LocalModel} (hpinned : ¬Revision.isUnpinned m.revision = true)
    (hparts : ¬(!isPathPart m.model || !isPathPart m.revision) = true) : m.Named := by
  simp only [Bool.or_eq_true, Bool.not_eq_true', not_or, Bool.not_eq_false] at hparts
  exact ⟨Revision.isUnpinned_eq_false_iff.1 (Bool.eq_false_iff.2 hpinned), isPathPart_iff.1 hparts.1,
    isPathPart_iff.1 hparts.2⟩

/-- A manifest is for this model and nothing else, and in bounds. -/
structure Fits (m : LocalModel) (manifest : Manifest) : Prop where
  name : manifest.name = m.model
  revision : manifest.revision = m.revision
  indent : 1 ≤ manifest.indentWidth ∧ manifest.indentWidth ≤ 8
  tokens : 0 < manifest.maxContextTokens

/-- The manifest that the one file of a model holds, if the model may be used at all. -/
structure Provides (files : Files) (m : LocalModel) (manifest : Manifest) : Prop where
  named : m.Named
  found : ∃ content, files m.manifestPath = .text content ∧ Manifest.ofText? content = some manifest
  fits : m.Fits manifest

end LocalModel

namespace Manifest

/-- A manifest names this language, or none at all. -/
def Covers (manifest : Manifest) (language : Language) : Prop :=
  manifest.languages = [] ∨
    ∃ name ∈ manifest.languages, Text.upper name.toList = Text.upper language.name.toList

theorem check_eq_ok_iff {manifest : Manifest} {m : LocalModel} : manifest.check m = .ok () ↔ m.Fits manifest := by
  unfold check
  constructor
  · intro h
    split at h
    · cases h
    · next hname =>
      split at h
      · cases h
      · next hrevision =>
        split at h
        · cases h
        · next hindent =>
          split at h
          · cases h
          · next htokens =>
            exact ⟨by simpa using hname, by simpa using hrevision, by omega, by omega⟩
  · intro h
    rw [if_neg (by simpa using h.name), if_neg (by simpa using h.revision), if_neg, if_neg]
    · have := h.tokens
      omega
    · have := h.indent
      omega

/-- A manifest is found exactly if the model provides it. -/
theorem load_eq_ok_iff {files : Files} {m : LocalModel} {manifest : Manifest} :
    load files m = .ok manifest ↔ m.Provides files manifest := by
  unfold load
  dsimp only
  constructor
  · intro h
    split at h
    · cases h
    · next hpinned =>
      split at h
      · cases h
      · next hparts =>
        have hnamed := LocalModel.named_of_not_refused hpinned hparts
        split at h
        · cases h
        · cases h
        · next content hcontent =>
          split at h
          · cases h
          · next found hfound =>
            cases hcheck : found.check m with
            | error e =>
              rw [hcheck] at h
              cases h
            | ok u =>
              rw [hcheck] at h
              cases h
              exact ⟨hnamed, ⟨content, hcontent, hfound⟩, check_eq_ok_iff.1 hcheck⟩
  · intro h
    obtain ⟨content, hcontent, hfound⟩ := h.found
    rw [Revision.isUnpinned_eq_false_iff.2 h.named.pinned, LocalModel.isPathPart_iff.2 h.named.model,
      LocalModel.isPathPart_iff.2 h.named.revision, hcontent]
    simp [hfound, check_eq_ok_iff.2 h.fits]
    rfl

/-- Only the one file is looked at. -/
theorem load_congr {files files' : Files} {m : LocalModel} (h : m.Named → files m.manifestPath = files' m.manifestPath) :
    load files m = load files' m := by
  unfold load
  dsimp only
  split
  · rfl
  · next hpinned =>
    split
    · rfl
    · next hparts =>
      rw [h (LocalModel.named_of_not_refused hpinned hparts)]

theorem supports_iff {manifest : Manifest} {language : Language} :
    manifest.capabilities.supports language = true ↔ manifest.Covers language := by
  unfold Capabilities.supports capabilities Covers
  rw [Bool.or_eq_true, List.isEmpty_iff, List.any_eq_true]
  simp only [Text.isWord_iff]
  simp only [eq_comm]

/-- The rules write in the languages that they know, if the manifest covers them. -/
theorem isSome_target_iff {manifest : Manifest} {language : Language} :
    (manifest.target? language).isSome = true ↔
      manifest.Covers language ∧ (Target.ofName? language.name).isSome = true := by
  unfold target?
  by_cases h : manifest.capabilities.supports language = true
  · rw [if_pos h]
    exact (and_iff_right (supports_iff.1 h)).symm
  · rw [if_neg h]
    exact iff_of_false Bool.false_ne_true fun hboth => h (supports_iff.2 hboth.1)

theorem answer_success (manifest : Manifest) (p : Provenance) (chunk : Chunk) (language : Language) :
    (manifest.answer p chunk language).success = (manifest.target? language).isSome := by
  unfold answer
  cases manifest.target? language with
  | none => rfl
  | some target =>
    dsimp only
    split
    · split <;> rfl
    · split <;> rfl

end Manifest

/-! ## The path of a manifest -/

namespace Files

/-- The beginning of the paths that lead on from a path. -/
def under (path : String) : List Char :=
  if path.isEmpty || path.endsWith "/" then path.toList else path.toList ++ ['/']

/-- The steps of a path that is given by its characters. -/
def stepsOf (path : List Char) : List String :=
  ((Text.splitOn '/' path).map String.ofList).filter fun p => p != "" && p != "."

theorem endsWith_slash_iff {path : String} : path.endsWith "/" = true ↔ ['/'] <:+ path.toList := by
  rw [String.endsWith_eq_endsWith_toSlice, String.Slice.endsWith_string_eq_endsWith_toSlice,
    String.Slice.endsWith_slice_iff]
  simp

theorem toList_join {path part : String} (h : LocalModel.IsStep part) :
    (join path part).toList = under path ++ part.toList := by
  have hslash : part.startsWith "/" = false := by
    rw [Bool.eq_false_iff, ne_eq, String.startsWith_string_iff]
    exact fun hbegins => h.slash (hbegins.subset List.mem_cons_self)
  unfold join under
  rw [hslash, Bool.false_or]
  by_cases hempty : path.isEmpty = true
  · rw [if_pos hempty, hempty, Bool.true_or, if_pos rfl, String.isEmpty_iff.1 hempty]
    rfl
  · rw [if_neg hempty, Bool.eq_false_iff.2 hempty, Bool.false_or]
    split <;> simp

/-- After a step the path goes on with a slash. -/
theorem under_join {path part : String} (h : LocalModel.IsStep part) :
    under (join path part) = under path ++ part.toList ++ ['/'] := by
  have hchars : part.toList ≠ [] := mt String.toList_eq_nil_iff.1 h.notEmpty
  rw [under, if_neg, toList_join h]
  rw [Bool.or_eq_true, not_or, String.isEmpty_iff, ← String.toList_eq_nil_iff, endsWith_slash_iff, toList_join h]
  refine ⟨fun hnil => hchars (List.append_eq_nil_iff.1 hnil).2, fun hsuffix => h.slash ?_⟩
  -- the last character is one of the step
  have hlast := List.singleton_suffix_iff_getLast?_eq_some.1 hsuffix
  rw [List.getLast?_append_of_ne_nil _ hchars] at hlast
  exact List.mem_of_getLast? hlast

theorem splitOn_ne_nil (sep : Char) (cs : List Char) : Text.splitOn sep cs ≠ [] := by
  fun_cases Text.splitOn sep cs with
  | case1 => exact List.cons_ne_nil _ _
  | case2 => exact List.cons_ne_nil _ _
  | case3 => exact List.cons_ne_nil _ _
  | case4 => exact List.cons_ne_nil _ _

theorem splitOn_append_cons (sep : Char) (xs ys : List Char) :
    Text.splitOn sep (xs ++ sep :: ys) = Text.splitOn sep xs ++ Text.splitOn sep ys := by
  fun_induction Text.splitOn sep xs with
  | case1 => simp [Text.splitOn]
  | case2 c cs hc ih => simp [Text.splitOn, hc, ih]
  | case3 c cs hc hnil ih => exact absurd hnil (splitOn_ne_nil sep cs)
  | case4 c cs hc p ps hsplit ih =>
    rw [hsplit] at ih
    simp [Text.splitOn, hc, ih]

/-- A slash ends the steps before it. -/
theorem stepsOf_append_slash (xs ys : List Char) : stepsOf (xs ++ '/' :: ys) = stepsOf xs ++ stepsOf ys := by
  unfold stepsOf
  rw [splitOn_append_cons, List.map_append, List.filter_append]

theorem stepsOf_under_append (path : String) (cs : List Char) :
    stepsOf (under path ++ cs) = steps path ++ stepsOf cs := by
  unfold under
  by_cases hempty : path.isEmpty = true
  · rw [hempty, String.isEmpty_iff.1 hempty]
    rfl
  · by_cases hends : path.endsWith "/" = true
    · obtain ⟨before, hbefore⟩ := endsWith_slash_iff.1 hends
      have hsteps : steps path = stepsOf before := by
        show stepsOf path.toList = stepsOf before
        rw [← hbefore, stepsOf_append_slash]
        exact List.append_nil _
      rw [hends, Bool.or_true, if_pos rfl, ← hbefore, List.append_assoc, List.singleton_append,
        stepsOf_append_slash, hsteps]
    · rw [Bool.eq_false_iff.2 hempty, Bool.eq_false_iff.2 hends, if_neg (by decide), List.append_assoc,
        List.singleton_append, stepsOf_append_slash]
      rfl

theorem splitOn_of_notMem {sep : Char} {cs : List Char} (h : sep ∉ cs) : Text.splitOn sep cs = [cs] := by
  fun_induction Text.splitOn sep cs with
  | case1 => rfl
  | case2 c cs hc ih => exact absurd (List.mem_cons.2 (.inl (eq_of_beq hc).symm)) h
  | case3 c cs hc hnil ih => exact absurd hnil (splitOn_ne_nil sep cs)
  | case4 c cs hc p ps hsplit ih =>
    rw [ih (mt (List.mem_cons_of_mem c) h)] at hsplit
    cases hsplit
    rfl

theorem stepsOf_of_isStep {part : String} (h : LocalModel.IsStep part) : stepsOf part.toList = [part] := by
  unfold stepsOf
  rw [splitOn_of_notMem h.slash, List.map_singleton, String.ofList_toList]
  exact List.filter_cons_of_pos (by simpa using ⟨h.notEmpty, h.notHere⟩)

end Files

namespace LocalModel

/-- The name of the file that holds a manifest. -/
def manifestName : String := "manifest.toml"

theorem isStep_manifestName : IsStep manifestName := isPathPart_iff.1 (by decide)

/-- The manifest of a model stands below its directory, its name and its revision. -/
theorem toList_manifestPath {m : LocalModel} (h : m.Named) : m.manifestPath.toList =
    Files.under m.directory ++ (m.model.toList ++ '/' :: m.revision.toList ++ '/' :: manifestName.toList) := by
  unfold manifestPath
  rw [← manifestName, Files.toList_join isStep_manifestName, Files.under_join h.revision, Files.under_join h.model]
  simp

/-- The path of a manifest goes down from the directory by exactly three steps. -/
theorem steps_manifestPath {m : LocalModel} (h : m.Named) :
    Files.steps m.manifestPath = Files.steps m.directory ++ [m.model, m.revision, manifestName] := by
  show Files.stepsOf m.manifestPath.toList = _
  rw [toList_manifestPath h, Files.stepsOf_under_append, List.append_assoc, List.cons_append,
    Files.stepsOf_append_slash, Files.stepsOf_append_slash, Files.stepsOf_of_isStep h.model,
    Files.stepsOf_of_isStep h.revision, Files.stepsOf_of_isStep isStep_manifestName]
  rfl

/-! ## The answer -/

/-- The answer of a model that was not used before, and the backend behind it. -/
def answer (m : LocalModel) (files : Files) (chunk : Chunk) (language : Language) : Answer × EmbeddedBackend :=
  EmbeddedBackend.answer files { settings := m } chunk language

theorem answer_congr {m : LocalModel} {files files' : Files} (h : m.Named → files m.manifestPath = files' m.manifestPath)
    (chunk : Chunk) (language : Language) : m.answer files chunk language = m.answer files' chunk language := by
  unfold answer EmbeddedBackend.answer EmbeddedBackend.load
  dsimp only
  rw [Manifest.load_congr h]

/-- A model answers with code exactly if it provides a manifest for the language and the rules write in it. -/
theorem answer_success_iff {m : LocalModel} {files : Files} {chunk : Chunk} {language : Language} :
    (m.answer files chunk language).1.success = true ↔
      (∃ manifest, m.Provides files manifest ∧ manifest.Covers language) ∧
        (Target.ofName? language.name).isSome = true := by
  unfold answer EmbeddedBackend.answer EmbeddedBackend.load
  dsimp only
  cases hload : Manifest.load files m with
  | error e =>
    refine iff_of_false Bool.false_ne_true ?_
    rintro ⟨⟨manifest, hprovides, -⟩, -⟩
    rw [Manifest.load_eq_ok_iff.2 hprovides] at hload
    cases hload
  | ok manifest =>
    have hprovides := Manifest.load_eq_ok_iff.1 hload
    dsimp only
    rw [Manifest.answer_success, Manifest.isSome_target_iff]
    constructor
    · rintro ⟨hcovers, htarget⟩
      exact ⟨⟨manifest, hprovides, hcovers⟩, htarget⟩
    · rintro ⟨⟨manifest', hprovides', hcovers⟩, htarget⟩
      rw [Manifest.load_eq_ok_iff.2 hprovides'] at hload
      cases hload
      exact ⟨hcovers, htarget⟩

/-- A model fails closed: it answers with code exactly if its one manifest is all that was asked for, and with errors
otherwise.  What is found anywhere else does not matter; if the names of the model lead to no manifest, nothing that is
found does, and if they do, it is three steps below the directory. -/
theorem success_iff_provides (m : LocalModel) (files elsewhere : Files) (chunk : Chunk) (language : Language) :
    ((m.answer files chunk language).1.success = true ↔
      (∃ manifest, m.Provides files manifest ∧ manifest.Covers language) ∧
        (Target.ofName? language.name).isSome = true) ∧
    ((m.answer files chunk language).1.success = false →
      (m.answer files chunk language).1.code = none ∧ (m.answer files chunk language).1.errors ≠ [] ∧
        (m.answer files chunk language).1.confidence = 0) ∧
    m.answer (Function.update elsewhere m.manifestPath (files m.manifestPath)) chunk language =
      m.answer files chunk language ∧
    (¬m.Named → m.answer elsewhere chunk language = m.answer files chunk language) ∧
    (m.Named →
      m.manifestPath.toList =
        Files.under m.directory ++ (m.model.toList ++ '/' :: m.revision.toList ++ '/' :: manifestName.toList) ∧
      Files.steps m.manifestPath = Files.steps m.directory ++ [m.model, m.revision, manifestName]) := by
  have hsound : (m.answer files chunk language).1.Sound := EmbeddedBackend.sound_answer files _ chunk language
  refine ⟨answer_success_iff, fun hfailed => ?_, ?_, fun hunnamed => ?_, fun hnamed => ?_⟩
  · unfold Answer.Sound at hsound
    rwa [if_neg (by simp [hfailed])] at hsound
  · exact answer_congr (fun _ => Function.update_self _ _ _) chunk language
  · exact answer_congr (fun hnamed => absurd hnamed hunnamed) chunk language
  · exact ⟨toList_manifestPath hnamed, steps_manifestPath hnamed⟩

/-- The files with nothing but the manifest of the built-in rules. -/
def rulesOnly : Files := fun path =>
  if path = "models/pseudo-rules/v1/manifest.toml" then .text "name = \"pseudo-rules\"\nrevision = \"v1\"\n"
  else .missing

/-- There the rules answer with code, and no name that moves gets their code. -/
theorem success_iff_provides_rulesOnly (chunk : Chunk) :
    (({} : LocalModel).answer rulesOnly chunk .python).1.success = true ∧
      (({ revision := " Latest" } : LocalModel).answer rulesOnly chunk .python).1.success = false := by
  have hprovides : ({} : LocalModel).Provides rulesOnly { name := "pseudo-rules", revision := "v1" } :=
    Manifest.load_eq_ok_iff.1 (by decide +kernel)
  refine ⟨(success_iff_provides {} rulesOnly rulesOnly chunk .python).1.2
    ⟨⟨_, hprovides, .inr ⟨"python", by decide⟩⟩, rfl⟩, ?_⟩
  rw [← Bool.not_eq_true, (success_iff_provides _ rulesOnly rulesOnly chunk .python).1]
  rintro ⟨⟨manifest, hmoving, -⟩, -⟩
  exact hmoving.named.pinned.fixed "latest" (by decide) (by decide)

end LocalModel

end Pseudoscribe
