import Mathlib.Data.List.Basic
import Pseudoscribe.Backend.Kind
import Pseudoscribe.Cache.Store
import Pseudoscribe.Language

/-!
# Which queries share a key

A key joins the parts of a query with marks and escapes nothing.  The digest has a fixed length and the limits are
written in digits, so they can always be told apart from the rest; the four texts between them cannot.  Two queries
share a key exactly if they are the same or the one ends its language, or its model, at a later mark than the other.
-/

namespace Pseudoscribe

/-! ## Texts joined with a mark -/

section Marks

variable {α : Type} {mark : α} {a a' b b' : List α}

/-- One text is cut at a mark in two ways: at the same place, or the one cut is behind the other. -/
theorem append_mark_eq_iff : a ++ mark :: b = a' ++ mark :: b' ↔
    a = a' ∧ b = b' ∨ (∃ x, a' = a ++ mark :: x ∧ b = x ++ mark :: b') ∨
      ∃ x, a = a' ++ mark :: x ∧ b' = x ++ mark :: b := by
  constructor
  · intro h
    rcases List.append_eq_append_iff.1 h with ⟨x, rfl, hx⟩ | ⟨x, rfl, hx⟩
    · cases x with
      | nil => exact .inl ⟨by simp, by simpa using hx⟩
      | cons y x =>
        obtain ⟨rfl, rfl⟩ := List.cons.inj hx
        exact .inr (.inl ⟨x, rfl, rfl⟩)
    · cases x with
      | nil => exact .inl ⟨by simp, by simpa using hx.symm⟩
      | cons y x =>
        obtain ⟨rfl, rfl⟩ := List.cons.inj hx
        exact .inr (.inr ⟨x, rfl, rfl⟩)
  · rintro (⟨rfl, rfl⟩ | ⟨x, rfl, rfl⟩ | ⟨x, rfl, rfl⟩) <;> simp

/-- The first mark can be found again. -/
theorem append_mark_inj_left (h : mark ∉ a) (h' : mark ∉ a') :
    a ++ mark :: b = a' ++ mark :: b' ↔ a = a' ∧ b = b' := by
  rw [append_mark_eq_iff]
  refine ⟨fun hcut => ?_, .inl⟩
  rcases hcut with hsame | ⟨x, rfl, -⟩ | ⟨x, rfl, -⟩
  · exact hsame
  · simp at h'
  · simp at h

/-- The last mark can be found again. -/
theorem append_mark_inj_right (h : mark ∉ b) (h' : mark ∉ b') :
    a ++ mark :: b = a' ++ mark :: b' ↔ a = a' ∧ b = b' := by
  rw [append_mark_eq_iff]
  refine ⟨fun hcut => ?_, .inl⟩
  rcases hcut with hsame | ⟨x, -, rfl⟩ | ⟨x, -, rfl⟩
  · exact hsame
  · simp at h
  · simp at h'

end Marks

/-! ## Parts that can be told apart -/

theorem eq_of_toDigits_eq {m n : Nat} (h : Nat.toDigits 10 m = Nat.toDigits 10 n) : m = n := by
  rw [← Nat.ofDigitChars_ten_toDigits (n := m), h, Nat.ofDigitChars_ten_toDigits]

theorem notMem_toDigits {c : Char} (hc : c.isDigit = false) (n : Nat) : c ∉ Nat.toDigits 10 n := fun h => by
  have hdigit := Nat.isDigit_of_mem_toDigits (by decide) (by decide) h
  rw [hc] at hdigit
  cases hdigit

namespace Md5

theorem length_hexByte : ∀ n < 256, (hexByte n).toList.length = 2 := by decide +kernel

theorem length_lowBytes (count n : Nat) : (lowBytes count n).length = count := by
  induction count generalizing n with
  | zero => rfl
  | succ count ih => simp [lowBytes, ih]

/-- Every digest is as long as every other. -/
theorem length_ofText (source : String) : (ofText source).toList.length = 32 := by
  have hbytes (bs : List UInt8) : (bs.flatMap fun b => (hexByte b.toNat).toList).length = 2 * bs.length := by
    induction bs with
    | nil => rfl
    | cons b bs ih =>
      rw [List.flatMap_cons, List.length_append, ih, length_hexByte _ b.toNat_lt, List.length_cons]
      omega
  unfold ofText State.text
  rw [String.toList_join, List.flatMap_map, hbytes]
  simp [length_lowBytes]

end Md5

namespace CacheQuery

/-! ## The parts of a key -/

/-- The four texts between the digest and the limits. -/
def joined (q : CacheQuery) : List Char :=
  q.language.toList ++ ':' :: (q.backend.toList ++ ':' :: (q.model.toList ++ '@' :: q.revision.toList))

theorem toList_key (q : CacheQuery) : q.key.toList = (Md5.ofText q.source).toList ++ (':' :: q.joined ++
    ':' :: (Nat.toDigits 10 q.maxChunkSize ++ '/' :: Nat.toDigits 10 q.overlapLines)) := by
  have htext (s : String) : toString s = s := rfl
  simp [key, joined, htext]

/-- Digest and limits can be told apart from what stands between them. -/
theorem key_eq_iff_joined {q q' : CacheQuery} : q.key = q'.key ↔ Md5.ofText q.source = Md5.ofText q'.source ∧
    q.joined = q'.joined ∧ q.maxChunkSize = q'.maxChunkSize ∧ q.overlapLines = q'.overlapLines := by
  have hslash (n : Nat) : '/' ∉ Nat.toDigits 10 n := notMem_toDigits rfl n
  have hcolon (m n : Nat) : ':' ∉ Nat.toDigits 10 m ++ '/' :: Nat.toDigits 10 n := by
    simp [notMem_toDigits (c := ':') rfl]
  rw [← String.toList_inj, toList_key, toList_key]
  constructor
  · intro h
    obtain ⟨hdigest, hrest⟩ := List.append_inj h (by rw [Md5.length_ofText, Md5.length_ofText])
    obtain ⟨hjoined, hlimits⟩ := (append_mark_inj_right (hcolon _ _) (hcolon _ _)).1 hrest
    obtain ⟨hsize, hoverlap⟩ := (append_mark_inj_right (hslash _) (hslash _)).1 hlimits
    exact ⟨String.toList_inj.1 hdigest, List.tail_eq_of_cons_eq hjoined, eq_of_toDigits_eq hsize,
      eq_of_toDigits_eq hoverlap⟩
  · rintro ⟨hdigest, hjoined, hsize, hoverlap⟩
    rw [hdigest, hjoined, hsize, hoverlap]

/-! ## Other cuts of the same text -/

/-- In the key of `q` the language, or with the same language and backend the model, may also end at a later mark: then
it is the key of `q'`. -/
inductive Recut (q : CacheQuery) : CacheQuery → Prop
  /-- the model takes a beginning of the revision -/
  | model {taken rest : String} (h : q.revision = taken ++ "@" ++ rest) :
    Recut q { q with model := q.model ++ "@" ++ taken, revision := rest }
  /-- the language takes the backend and perhaps a beginning of what follows -/
  | language {past backend model revision : String} (h : ":" ++ q.model ++ "@" ++ q.revision =
      past ++ ":" ++ backend ++ ":" ++ model ++ "@" ++ revision) :
    Recut q { q with language := q.language ++ ":" ++ q.backend ++ past, backend, model, revision }

theorem Recut.joined_eq {q q' : CacheQuery} (h : q.Recut q') : q'.joined = q.joined := by
  cases h with
  | model h => simp [joined, h]
  | language h =>
    have h := congrArg String.toList h
    simp only [String.toList_append, String.reduceToList, List.append_assoc, List.cons_append, List.nil_append] at h
    simp [joined, h]

/-- The name of a backend has no mark. -/
theorem colon_notMem_name (k : BackendKind) : ':' ∉ k.name.toList := by cases k <;> decide

/-- The queries have the same source and limits. -/
def SameSize (q q' : CacheQuery) : Prop :=
  q.source = q'.source ∧ q.maxChunkSize = q'.maxChunkSize ∧ q.overlapLines = q'.overlapLines

theorem recut_of_model {q q' : CacheQuery} {x : List Char} (h : q.SameSize q') (hlanguage : q.language = q'.language)
    (hbackend : q.backend = q'.backend) (hmodel : q'.model.toList = q.model.toList ++ '@' :: x)
    (hrevision : q.revision.toList = x ++ '@' :: q'.revision.toList) : q.Recut q' := by
  obtain ⟨source, language, backend, model, revision, size, overlap⟩ := q
  obtain ⟨_, _, _, model', rest, _, _⟩ := q'
  obtain ⟨rfl, rfl, rfl⟩ := h
  cases hlanguage; cases hbackend
  obtain rfl : model' = model ++ "@" ++ String.ofList x := String.toList_inj.1 (by simp [hmodel])
  exact .model (String.toList_inj.1 (by simp [hrevision]))

theorem recut_of_language {q q' : CacheQuery} {x : List Char} (h : q.SameSize q') (hmark : ':' ∉ q.backend.toList)
    (hlanguage : q'.language.toList = q.language.toList ++ ':' :: x)
    (hrest : q.backend.toList ++ ':' :: (q.model.toList ++ '@' :: q.revision.toList) =
      x ++ ':' :: (q'.backend.toList ++ ':' :: (q'.model.toList ++ '@' :: q'.revision.toList))) : q.Recut q' := by
  obtain ⟨source, language, backend, model, revision, size, overlap⟩ := q
  obtain ⟨_, language', backend', model', revision', _, _⟩ := q'
  obtain ⟨rfl, rfl, rfl⟩ := h
  -- The backend has no mark, so the longer language goes at least to its end.
  obtain ⟨past, rfl, htail⟩ : ∃ past, x = backend.toList ++ past ∧ ':' :: (model.toList ++ '@' :: revision.toList) =
      past ++ ':' :: (backend'.toList ++ ':' :: (model'.toList ++ '@' :: revision'.toList)) := by
    rcases append_mark_eq_iff.1 hrest with ⟨rfl, htail⟩ | ⟨y, rfl, htail⟩ | ⟨y, hbackend, -⟩
    · exact ⟨[], by simp, by simp [htail]⟩
    · exact ⟨':' :: y, rfl, by simp [htail]⟩
    · simp [hbackend] at hmark
  obtain rfl : language' = language ++ ":" ++ backend ++ String.ofList past := String.toList_inj.1 (by simp [hlanguage])
  exact .language (String.toList_inj.1 (by simpa using htail))

/-- One text is joined from two queries only if one of them is the other with a later mark. -/
theorem eq_or_recut_of_joined_eq {q q' : CacheQuery} (h : q.SameSize q') (hmark : ':' ∉ q.backend.toList)
    (hmark' : ':' ∉ q'.backend.toList) (hjoined : q.joined = q'.joined) : q = q' ∨ q.Recut q' ∨ q'.Recut q := by
  have hback : q'.SameSize q := ⟨h.1.symm, h.2.1.symm, h.2.2.symm⟩
  rcases append_mark_eq_iff.1 hjoined with ⟨hlanguage, hrest⟩ | ⟨x, hlanguage, hrest⟩ | ⟨x, hlanguage, hrest⟩
  · have hlanguage := String.toList_inj.1 hlanguage
    obtain ⟨hbackend, hcut⟩ := (append_mark_inj_left hmark hmark').1 hrest
    have hbackend := String.toList_inj.1 hbackend
    rcases append_mark_eq_iff.1 hcut with ⟨hmodel, hrevision⟩ | ⟨x, hmodel, hrevision⟩ | ⟨x, hmodel, hrevision⟩
    · refine .inl ?_
      obtain ⟨hsource, hsize, hoverlap⟩ := h
      cases q; cases q'
      simp_all [String.toList_inj]
    · exact .inr (.inl (recut_of_model h hlanguage hbackend hmodel hrevision))
    · exact .inr (.inr (recut_of_model hback hlanguage.symm hbackend.symm hmodel hrevision))
  · exact .inr (.inl (recut_of_language h hmark hlanguage hrest))
  · exact .inr (.inr (recut_of_language hback hmark' hlanguage hrest))

theorem Recut.sameSize {q q' : CacheQuery} (h : q.Recut q') : q.SameSize q' := by
  cases h <;> exact ⟨rfl, rfl, rfl⟩

/-- A language that goes on takes a mark with it. -/
theorem Recut.colon_mem_or {q q' : CacheQuery} (h : q.Recut q') :
    ':' ∈ q'.language.toList ∨ '@' ∈ q'.model.toList ∧ q.model ≠ q'.model := by
  cases h with
  | model h =>
    refine .inr ⟨by simp, fun hmodel => ?_⟩
    have hlength := congrArg (fun s => s.toList.length) hmodel
    simp at hlength
  | language h => exact .inl (by simp)

/-- Two queries share a key exactly if they are the same or one is the other with a later mark.  So they do not if
neither language has a colon and the models are the same or neither has an `@`. -/
theorem key_eq_iff {q q' : CacheQuery} {k k' : BackendKind} (hk : q.backend = k.name) (hk' : q'.backend = k'.name)
    (hdigest : Md5.ofText q.source = Md5.ofText q'.source → q.source = q'.source) :
    (q.key = q'.key ↔ q = q' ∨ q.Recut q' ∨ q'.Recut q) ∧
      (':' ∉ q.language.toList → ':' ∉ q'.language.toList →
        q.model = q'.model ∨ '@' ∉ q.model.toList ∧ '@' ∉ q'.model.toList → q.key = q'.key → q = q') := by
  have hiff : q.key = q'.key ↔ q = q' ∨ q.Recut q' ∨ q'.Recut q := by
    rw [key_eq_iff_joined]
    constructor
    · rintro ⟨hmd5, hjoined, hsize, hoverlap⟩
      exact eq_or_recut_of_joined_eq ⟨hdigest hmd5, hsize, hoverlap⟩ (hk ▸ colon_notMem_name k)
        (hk' ▸ colon_notMem_name k') hjoined
    · rintro (rfl | h | h)
      · exact ⟨rfl, rfl, rfl, rfl⟩
      · exact ⟨congrArg Md5.ofText h.sameSize.1, h.joined_eq.symm, h.sameSize.2⟩
      · exact ⟨congrArg Md5.ofText h.sameSize.1.symm, h.joined_eq, h.sameSize.2.1.symm, h.sameSize.2.2.symm⟩
  refine ⟨hiff, fun hlanguage hlanguage' hmodels hkey => ?_⟩
  rcases hiff.1 hkey with h | h | h
  · exact h
  · rcases h.colon_mem_or with hcolon | ⟨hat, hne⟩
    · exact absurd hcolon hlanguage'
    · exact absurd hat (hmodels.resolve_left hne).2
  · rcases h.colon_mem_or with hcolon | ⟨hat, hne⟩
    · exact absurd hcolon hlanguage
    · exact absurd hat (hmodels.resolve_left (Ne.symm hne)).1

/-- A request of a service with one model, in a language and for a revision. -/
def ofRules (language revision : String) : CacheQuery :=
  { source := "x = 1\n", language, backend := BackendKind.name .embedded, model := "pseudo-rules", revision,
    maxChunkSize := 2000, overlapLines := 3 }

/-- Python, for a revision that was named to look like the rest of the other request. -/
def disguised : CacheQuery := ofRules "python" "b:local:pseudo-rules@v1"

/-- A language of its own, which the built-in revision is asked for. -/
def ordinary : CacheQuery := ofRules "python:local:pseudo-rules@b" "v1"

theorem key_eq_iff_disguised : disguised.key = ordinary.key ∧
    (ofRules "python" "v1").key ≠ (ofRules "javascript" "v1").key := by
  have hrecut : disguised.Recut ordinary :=
    recut_of_language (x := "local:pseudo-rules@b".toList) ⟨rfl, rfl, rfl⟩ (by decide) (by decide) (by decide)
  have hdisguised := @key_eq_iff disguised ordinary .embedded .embedded rfl rfl fun _ => rfl
  refine ⟨hdisguised.1.2 (.inr (.inl hrecut)), fun h => ?_⟩
  have hsame := (@key_eq_iff (ofRules "python" "v1") (ofRules "javascript" "v1") .embedded .embedded rfl rfl
    fun _ => rfl).2 (by decide) (by decide) (.inl rfl) h
  exact absurd hsame (by decide)

/-- Two different queries of one service, each in a language as names of languages are accepted, share a key. -/
theorem exists_shared_key : ∃ q q' : CacheQuery, q.key = q'.key ∧ q.language ≠ q'.language ∧ q.revision ≠ q'.revision ∧
    q.source = q'.source ∧ q.backend = q'.backend ∧ q.model = q'.model ∧
    Language.ofName q.language = .ok ⟨q.language⟩ ∧ Language.ofName q'.language = .ok ⟨q'.language⟩ := by
  refine ⟨disguised, ordinary, key_eq_iff_joined.2 ⟨rfl, by decide, rfl, rfl⟩, by decide, by decide, rfl, rfl, rfl, ?_,
    ?_⟩
  · decide +kernel
  · decide +kernel

end CacheQuery

end Pseudoscribe
