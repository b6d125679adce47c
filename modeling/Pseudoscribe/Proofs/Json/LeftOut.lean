import Mathlib.Data.List.Nodup
import Pseudoscribe.Json.Record
import Pseudoscribe.Proofs.Json.RoundTrip

/-!
# Records with members left out

A record is read from an object that has its members, each once.  Members that have a default of their own may be left
out of it, any of them and as many as one likes: then the others are read as they stand.
-/

namespace Pseudoscribe.Json

mutual

/-- A value without the members of some names, wherever in it they are. -/
def without (out : String → Bool) : Json → Json
  | null => null
  | bool b => bool b
  | int i => int i
  | real x => real x
  | str s => str s
  | arr items => arr (itemsWithout out items)
  | obj members => obj (membersWithout out members)

def itemsWithout (out : String → Bool) : List Json → List Json
  | [] => []
  | j :: js => without out j :: itemsWithout out js

def membersWithout (out : String → Bool) : List (String × Json) → List (String × Json)
  | [] => []
  | (name, j) :: ms => if out name then membersWithout out ms else (name, without out j) :: membersWithout out ms

end

mutual

theorem without_none : ∀ j : Json, j.without (fun _ => false) = j
  | null | bool _ | int _ | real _ | str _ => rfl
  | arr items => congrArg arr (itemsWithout_none items)
  | obj members => congrArg obj (membersWithout_none members)

theorem itemsWithout_none : ∀ items : List Json, itemsWithout (fun _ => false) items = items
  | [] => rfl
  | j :: js => congrArg₂ List.cons (without_none j) (itemsWithout_none js)

theorem membersWithout_none : ∀ members : List (String × Json), membersWithout (fun _ => false) members = members
  | [] => rfl
  | (name, j) :: ms => congrArg₂ List.cons (congrArg (Prod.mk name) (without_none j)) (membersWithout_none ms)

end

mutual

theorem ReadsBack.without {out : String → Bool} : ∀ {j : Json} {depth : Nat}, ReadsBack depth j →
    ReadsBack depth (j.without out)
  | null, _, h | bool _, _, h | int _, _, h | real _, _, h | str _, _, h => h
  | arr _, _, h => ⟨h.1, h.2.without⟩
  | obj _, _, h => ⟨h.1, h.2.without⟩

theorem ItemsReadBack.without {out : String → Bool} : ∀ {items : List Json} {depth : Nat}, ItemsReadBack depth items →
    ItemsReadBack depth (itemsWithout out items)
  | [], _, h => h
  | _ :: _, _, h => ⟨h.1.without, h.2.without⟩

theorem MembersReadBack.without {out : String → Bool} : ∀ {members : List (String × Json)} {depth : Nat},
    MembersReadBack depth members → MembersReadBack depth (membersWithout out members)
  | [], _, h => h
  | (name, j) :: ms, depth, h => by
    show MembersReadBack depth (if _ then _ else _)
    split
    · exact h.2.without
    · exact ⟨h.1.without, h.2.without⟩

end

/-! ## Reading what is left -/

/-- Only members of these names are left out. -/
def LeavesOut (names : List String) (out : String → Bool) : Prop := ∀ name, out name = true → name ∈ names

theorem LeavesOut.keeps {names : List String} {out : String → Bool} (h : LeavesOut names out) {name : String}
    (hname : name ∉ names) : out name = false :=
  Bool.eq_false_iff.2 fun hout => hname (h name hout)

theorem leavesOut_none (names : List String) : LeavesOut names fun _ => false := nofun

section Left

variable {out : String → Bool}

theorem names_membersWithout (ms : List (String × Json)) :
    (membersWithout out ms).map Prod.fst = (ms.map Prod.fst).filter fun name => !out name := by
  induction ms with
  | nil => rfl
  | cons m ms ih =>
    show (if _ then _ else _ : List (String × Json)).map Prod.fst = _
    rw [List.map_cons]
    cases hout : out m.1 with
    | true => rw [List.filter_cons_of_neg (by simp [hout]), if_pos rfl, ih]
    | false => rw [List.filter_cons_of_pos (by simp [hout]), if_neg (by decide), List.map_cons, ih]

theorem eraseDups_eq_self {names : List String} (h : names.Nodup) : names.eraseDups = names := by
  induction names with
  | nil => rfl
  | cons name names ih =>
    obtain ⟨hname, hnames⟩ := List.nodup_cons.1 h
    have hkept : names.filter (fun other => !other == name) = names :=
      List.filter_eq_self.2 fun other hother => by
        have hne : other ≠ name := fun heq => hname (heq ▸ hother)
        simp [hne]
    rw [List.eraseDups_cons, hkept, ih hnames]

/-- A record is read from the members that are left of it. -/
theorem record?_without {names : List String} (hout : LeavesOut names out) {fields : List (String × Presence)}
    {ms : List (String × Json)} (hfields : ms.map Prod.fst = fields.map Prod.fst)
    (hnodup : (fields.map Prod.fst).Nodup) (hrequired : ∀ f ∈ fields, f.2 = .required → f.1 ∉ names) :
    ((obj ms).without out).record? fields = some ⟨membersWithout out ms⟩ := by
  have hnames := (@names_membersWithout out ms).trans (congrArg _ hfields)
  have hknown : (membersWithout out ms).filter (fun m => fields.any (·.1 == m.1)) = membersWithout out ms := by
    refine List.filter_eq_self.2 fun m hm => ?_
    have hmem : m.1 ∈ (fields.map Prod.fst).filter fun name => !out name := hnames ▸ List.mem_map_of_mem hm
    obtain ⟨f, hf, hname⟩ := List.mem_map.1 (List.mem_of_mem_filter hmem)
    exact List.any_eq_true.2 ⟨f, hf, beq_iff_eq.2 hname⟩
  have hthere : (fields.all fun f => f.2 != .required || ((membersWithout out ms).map (·.1)).contains f.1) = true := by
    refine List.all_eq_true.2 fun f hf => ?_
    by_cases hreq : f.2 = .required
    · have hmem : f.1 ∈ (membersWithout out ms).map Prod.fst := by
        rw [hnames]
        exact List.mem_filter.2 ⟨List.mem_map_of_mem hf, by simp [hout.keeps (hrequired f hf hreq)]⟩
      exact Bool.or_eq_true_iff.2 (.inr (List.contains_iff_mem.2 hmem))
    · simp [hreq]
  have honce : ((membersWithout out ms).map (·.1)).eraseDups = (membersWithout out ms).map (·.1) :=
    eraseDups_eq_self (hnames ▸ hnodup.filter _)
  show (recordOfMembers? fields (membersWithout out ms)).map _ = _
  unfold recordOfMembers?
  dsimp only
  rw [hknown, if_pos ⟨congrArg List.length honce, hthere⟩]
  rfl

theorem find?_membersWithout (ms : List (String × Json)) (name : String) :
    (⟨membersWithout out ms⟩ : Record).find? name =
      if out name then none else ((⟨ms⟩ : Record).find? name).map (without out) := by
  unfold Record.find?
  induction ms with
  | nil =>
    show none = _
    split <;> rfl
  | cons m ms ih =>
    have hmembers : membersWithout out (m :: ms) =
        if out m.1 then membersWithout out ms else (m.1, m.2.without out) :: membersWithout out ms := rfl
    dsimp only at ih ⊢
    rw [hmembers, List.find?_cons]
    cases hout : out m.1 with
    | true =>
      rw [if_pos rfl, ih]
      cases hname : m.1 == name with
      | true => rw [← eq_of_beq hname, hout, if_pos rfl, if_pos rfl]
      | false => rfl
    | false =>
      rw [if_neg (by decide), List.find?_cons]
      cases hname : m.1 == name with
      | true =>
        rw [← eq_of_beq hname, hout, if_neg (by decide)]
        rfl
      | false => exact ih

variable {α : Type} {ms : List (String × Json)} {name : String} {read : Json → Option α} {j : Json} {x : α}

theorem read?_without (hfind : (⟨ms⟩ : Record).find? name = some j) (hname : out name = false)
    (hread : read (j.without out) = some x) : (⟨membersWithout out ms⟩ : Record).read? name read = some x := by
  unfold Record.read?
  rw [find?_membersWithout, hname, hfind]
  exact hread

theorem readOr?_without {otherwise : α} (hfind : (⟨ms⟩ : Record).find? name = some j)
    (hread : read (j.without out) = some x) :
    (⟨membersWithout out ms⟩ : Record).readOr? name otherwise read = some (if out name then otherwise else x) := by
  unfold Record.readOr?
  rw [find?_membersWithout, hfind]
  cases out name with
  | true => rfl
  | false => exact hread

/-- The tag of a record is found, and the rest of it. -/
theorem tagged?_without {tag : String} (htag : out tag = false)
    (hms : tag ∉ ms.map Prod.fst) :
    ((obj ((tag, str name) :: ms)).without out).tagged? tag = some (name, (obj ms).without out) := by
  have hne : ∀ m ∈ membersWithout out ms, m.1 ≠ tag := by
    intro m hm
    have hmem : m.1 ∈ (ms.map Prod.fst).filter fun name => !out name :=
      @names_membersWithout out ms ▸ List.mem_map_of_mem hm
    exact fun heq => hms (heq ▸ List.mem_of_mem_filter hmem)
  have hmembers : (obj ((tag, str name) :: ms)).without out = obj ((tag, str name) :: membersWithout out ms) := by
    show obj (if out tag then _ else _) = _
    rw [htag]
    rfl
  have htagged : ((tag, str name) :: membersWithout out ms).filter (·.1 == tag) = [(tag, str name)] := by
    rw [List.filter_cons_of_pos (by simp), List.filter_eq_nil_iff.2 fun m hm => by simp [hne m hm]]
  have hrest : ((tag, str name) :: membersWithout out ms).filter (·.1 != tag) = membersWithout out ms := by
    rw [List.filter_cons_of_neg (by simp), List.filter_eq_self.2 fun m hm => by simp [hne m hm]]
  rw [hmembers]
  unfold tagged?
  dsimp only
  rw [htagged, hrest]
  rfl

end Left

end Pseudoscribe.Json
