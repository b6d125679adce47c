import Pseudoscribe.Proofs.Json.Number
import Pseudoscribe.Proofs.Text.Pieces
import Pseudoscribe.Worker.Message

/-!
# Reading back what was written

The text of a value is read as that value: any text in its strings, its whole numbers in 64 bits, its other numbers as
far as each of them is read as it was, and values nested no deeper than readers allow.  No text holds a newline, so a
message is one line, and its line is read as the message.
-/

namespace Pseudoscribe.Json

/-! ## Strings -/

theorem hexDigit?_hexChar : ∀ n < 16, hexDigit? (hexChar n) = some n := by decide

theorem unicodeEscape?_hexChar {n : Nat} (hn : n < 32) (cs : List Char) :
    unicodeEscape? ('0' :: '0' :: hexChar (n / 16) :: hexChar (n % 16) :: cs) = some (Char.ofNat n, cs) := by
  have hvalue : ((0 * 16 + 0) * 16 + n / 16) * 16 + n % 16 = n := by omega
  have hhex : hex4? ('0' :: '0' :: hexChar (n / 16) :: hexChar (n % 16) :: cs) = some (n, cs) := by
    have hzero : hexDigit? '0' = some 0 := by decide
    simp only [hex4?, hzero, hexDigit?_hexChar (n / 16) (by omega), hexDigit?_hexChar (n % 16) (by omega)]
    exact congrArg (fun m => some (m, cs)) hvalue
  unfold unicodeEscape?
  rw [hhex]
  show (if _ then _ else if _ then _ else _) = _
  rw [if_neg (by omega), if_neg (by omega)]
  rfl

/-- A character is read as it is written. -/
theorem stringTail?_escapeChar (fuel : Nat) (acc : Array Char) (c : Char) (cs : List Char) :
    stringTail? (fuel + 1) acc (escapeChar c ++ cs) = stringTail? fuel (acc.push c) cs := by
  unfold escapeChar
  iterate 7
    split
    · next h =>
      rw [eq_of_beq h]
      rfl
  split
  · next h =>
    show (unicodeEscape? ('0' :: '0' :: hexChar (c.toNat / 16) :: hexChar (c.toNat % 16) :: cs)).bind _ = _
    rw [unicodeEscape?_hexChar h, Char.ofNat_toNat]
    rfl
  · next hquote hback _ _ _ _ _ hcontrol =>
    have hquote : c ≠ '"' := fun h => hquote (beq_iff_eq.2 h)
    have hback : c ≠ '\\' := fun h => hback (beq_iff_eq.2 h)
    have hkept : ¬((decide (c.toNat < 0x20) || c == '\\') = true) := by simp [hcontrol, hback]
    show stringTail? (fuel + 1) acc (c :: cs) = _
    rw [stringTail?.eq_6 _ _ _ _ hquote (fun _ h _ => hback h) (fun _ _ h _ => hback h), if_neg hkept]

theorem stringTail?_flatMap (cs : List Char) (rest : List Char) : ∀ (fuel : Nat) (acc : Array Char),
    cs.length < fuel →
    stringTail? fuel acc (cs.flatMap escapeChar ++ '"' :: rest) = some (String.ofList (acc.toList ++ cs), rest) := by
  induction cs with
  | nil =>
    intro fuel acc hfuel
    obtain ⟨fuel, rfl⟩ := Nat.exists_eq_add_one_of_ne_zero (Nat.ne_zero_of_lt hfuel)
    rw [List.append_nil]
    rfl
  | cons c cs ih =>
    intro fuel acc hfuel
    obtain ⟨fuel, rfl⟩ := Nat.exists_eq_add_one_of_ne_zero (Nat.ne_zero_of_lt hfuel)
    rw [List.flatMap_cons, List.append_assoc, stringTail?_escapeChar, ih fuel _ (by simpa using hfuel)]
    simp

theorem toList_quoted (s : String) : (quoted s).toList = '"' :: (s.toList.flatMap escapeChar ++ ['"']) := by
  simp [quoted]

theorem escapeChar_ne_nil (c : Char) : escapeChar c ≠ [] := by
  unfold escapeChar
  repeat' split
  all_goals exact List.cons_ne_nil _ _

theorem length_le_flatMap_escapeChar (cs : List Char) : cs.length ≤ (cs.flatMap escapeChar).length := by
  induction cs with
  | nil => exact Nat.le_refl _
  | cons c cs ih =>
    have hone := List.length_pos_iff.2 (escapeChar_ne_nil c)
    rw [List.flatMap_cons, List.length_append, List.length_cons]
    omega

/-- Any text is read as it is written. -/
theorem string?_quoted (s : String) (rest : List Char) : string? ((quoted s).toList ++ rest) = some (s, rest) := by
  rw [toList_quoted, List.cons_append, List.append_assoc, List.singleton_append]
  have hfuel := length_le_flatMap_escapeChar s.toList
  show stringTail? _ _ _ = _
  rw [stringTail?_flatMap _ _ _ _ (by rw [List.length_append]; omega)]
  simp

/-! ## Values -/

/-- A number that is read from its text as it was. -/
def Lossless (x : Double) : Prop := number? x.dataText.toList = some (real x, [])

mutual

/-- Readers that go so deep read the value as it was: whole numbers have 64 bits, and each of the others is itself read
as it was. -/
def ReadsBack : Nat → Json → Prop
  | _, null => True
  | _, bool _ => True
  | _, int i => -(Nat.pow 2 63 : Nat) ≤ i ∧ i ≤ maxWord
  | _, real x => Lossless x
  | _, str _ => True
  | depth, arr items => 1 < depth ∧ ItemsReadBack (depth - 1) items
  | depth, obj members => 1 < depth ∧ MembersReadBack (depth - 1) members

def ItemsReadBack : Nat → List Json → Prop
  | _, [] => True
  | depth, j :: js => ReadsBack depth j ∧ ItemsReadBack depth js

def MembersReadBack : Nat → List (String × Json) → Prop
  | _, [] => True
  | depth, (_, j) :: ms => ReadsBack depth j ∧ MembersReadBack depth ms

end

/-- The items of an array as they are written. -/
def itemChars (items : List Json) : List Char := (String.intercalate "," (itemTexts items)).toList

/-- The members of an object as they are written. -/
def memberChars (members : List (String × Json)) : List Char := (String.intercalate "," (memberTexts members)).toList

theorem toList_text_arr (items : List Json) : (text (arr items)).toList = '[' :: (itemChars items ++ [']']) := by
  simp [text, itemChars]

theorem toList_text_obj (members : List (String × Json)) :
    (text (obj members)).toList = '\x7b' :: (memberChars members ++ ['\x7d']) := by
  simp [text, memberChars]

theorem itemChars_singleton (j : Json) : itemChars [j] = (text j).toList := by
  simp [itemChars, itemTexts]

theorem itemChars_cons_cons (j j' : Json) (js : List Json) :
    itemChars (j :: j' :: js) = (text j).toList ++ ',' :: itemChars (j' :: js) := by
  simp [itemChars, itemTexts]

theorem memberChars_singleton (name : String) (j : Json) :
    memberChars [(name, j)] = (quoted name).toList ++ ':' :: (text j).toList := by
  simp [memberChars, memberTexts]

theorem memberChars_cons_cons (name : String) (j : Json) (m : String × Json) (ms : List (String × Json)) :
    memberChars ((name, j) :: m :: ms) =
      (quoted name).toList ++ ':' :: ((text j).toList ++ ',' :: memberChars (m :: ms)) := by
  simp [memberChars, memberTexts]

/-! ### One step of a reader -/

section Steps

variable {fuel depth : Nat}

theorem skipBlanks_cons {c : Char} (hc : isBlankChar c = false) (cs : List Char) : skipBlanks (c :: cs) = c :: cs :=
  List.dropWhile_cons_of_neg (by simp [hc])

theorem colon_not_isBlankChar : isBlankChar ':' = false := rfl

theorem not_isBlankChar {c : Char} (h : c = '-' ∨ c.isDigit = true) : isBlankChar c = false ∧ c ≠ ']' := by
  constructor
  · refine Bool.eq_false_iff.2 fun hblank => ?_
    simp only [isBlankChar, Bool.or_eq_true, beq_iff_eq] at hblank
    rcases hblank with ((rfl | rfl) | rfl) | rfl <;> revert h <;> decide
  · rintro rfl
    revert h
    decide

/-- A value that begins like a number is a number. -/
theorem value?_number {c : Char} (hc : c = '-' ∨ c.isDigit = true) (cs : List Char) :
    value? (fuel + 1) depth (c :: cs) = number? (c :: cs) := by
  unfold value?
  rw [skipBlanks_cons (not_isBlankChar hc).1]
  split
  case h_7 => rfl
  all_goals
    next heq =>
      obtain ⟨rfl, -⟩ := List.cons.inj heq
      exact absurd hc (by decide)

theorem value?_bracket (hdepth : 1 < depth) {c : Char} (hblank : isBlankChar c = false) (hc : c ≠ ']')
    (cs : List Char) : value? (fuel + 1) depth ('[' :: c :: cs) = items? fuel (depth - 1) #[] (c :: cs) := by
  have hskip : skipBlanks ('[' :: c :: cs) = '[' :: c :: cs := skipBlanks_cons rfl _
  unfold value?
  rw [hskip]
  show (if depth ≤ 1 then none else _) = _
  rw [if_neg (Nat.not_le_of_lt hdepth), skipBlanks_cons hblank]
  split
  · next heq => exact absurd (List.cons.inj heq).1 hc
  · rfl

theorem value?_brace (hdepth : 1 < depth) (cs : List Char) :
    value? (fuel + 1) depth ('\x7b' :: '"' :: cs) = members? fuel (depth - 1) #[] ('"' :: cs) := by
  show (if _ then none else members? fuel (depth - 1) #[] ('"' :: cs)) = _
  rw [if_neg (Nat.not_le_of_lt hdepth)]

theorem items?_last {acc : Array Json} {v : Json} {cs rest : List Char}
    (h : value? fuel depth cs = some (v, ']' :: rest)) :
    items? (fuel + 1) depth acc cs = some (arr (acc.push v).toList, rest) := by
  rw [items?, h]
  rfl

theorem items?_next {acc : Array Json} {v : Json} {cs rest : List Char}
    (h : value? fuel depth cs = some (v, ',' :: rest)) :
    items? (fuel + 1) depth acc cs = items? fuel depth (acc.push v) rest := by
  rw [items?, h]
  rfl

theorem members?_last {acc : Array (String × Json)} {name : String} {v : Json} {cs rest : List Char}
    (h : value? fuel depth cs = some (v, '\x7d' :: rest)) :
    members? (fuel + 1) depth acc ((quoted name).toList ++ ':' :: cs) =
      some (obj (acc.push (name, v)).toList, rest) := by
  have hskip : skipBlanks ((quoted name).toList ++ ':' :: cs) = (quoted name).toList ++ ':' :: cs := by
    rw [toList_quoted]
    rfl
  simp only [members?, hskip, string?_quoted, skipBlanks_cons colon_not_isBlankChar, h]
  rfl

theorem members?_next {acc : Array (String × Json)} {name : String} {v : Json} {cs rest : List Char}
    (h : value? fuel depth cs = some (v, ',' :: rest)) :
    members? (fuel + 1) depth acc ((quoted name).toList ++ ':' :: cs) =
      members? fuel depth (acc.push (name, v)) rest := by
  have hskip : skipBlanks ((quoted name).toList ++ ':' :: cs) = (quoted name).toList ++ ':' :: cs := by
    rw [toList_quoted]
    rfl
  simp only [members?, hskip, string?_quoted, skipBlanks_cons colon_not_isBlankChar, h]
  rfl

end Steps

/-! ### Whole values -/

/-- What stands at the beginning of a value: no blank, and nothing that closes an array. -/
theorem exists_cons_text {depth : Nat} {j : Json} (h : ReadsBack depth j) :
    ∃ c cs, (text j).toList = c :: cs ∧ isBlankChar c = false ∧ c ≠ ']' := by
  have hnumber {cs : List Char} {r : Json × List Char} (h : number? cs = some r) :
      ∃ c cs', cs = c :: cs' ∧ isBlankChar c = false ∧ c ≠ ']' := by
    obtain ⟨c, cs', rfl, hc⟩ := number?_head h
    exact ⟨c, cs', rfl, not_isBlankChar hc⟩
  cases j with
  | null => exact ⟨_, _, rfl, rfl, by decide⟩
  | bool b => cases b <;> exact ⟨_, _, rfl, rfl, by decide⟩
  | int i => exact hnumber (number?_int h.1 h.2)
  | real x => exact hnumber h
  | str s => exact ⟨_, _, toList_quoted s, rfl, by decide⟩
  | arr items => exact ⟨_, _, toList_text_arr items, rfl, by decide⟩
  | obj members => exact ⟨_, _, toList_text_obj members, rfl, by decide⟩

theorem exists_cons_itemChars {depth : Nat} {j : Json} (h : ReadsBack depth j) (js : List Json) :
    ∃ c cs, itemChars (j :: js) = c :: cs ∧ isBlankChar c = false ∧ c ≠ ']' := by
  obtain ⟨c, cs, hcs, hc⟩ := exists_cons_text h
  cases js with
  | nil => exact ⟨c, cs, (itemChars_singleton j).trans hcs, hc⟩
  | cons j' js =>
    rw [itemChars_cons_cons, hcs]
    exact ⟨c, _, rfl, hc⟩

theorem exists_cons_memberChars (name : String) (j : Json) (ms : List (String × Json)) :
    ∃ cs, memberChars ((name, j) :: ms) = '"' :: cs := by
  cases ms with
  | nil =>
    rw [memberChars_singleton, toList_quoted]
    exact ⟨_, rfl⟩
  | cons m' ms =>
    rw [memberChars_cons_cons, toList_quoted]
    exact ⟨_, rfl⟩

/-- A number is read as it is written, up to what no number goes on with. -/
theorem value?_of_number? {fuel depth : Nat} {cs rest : List Char} {j : Json} (h : number? cs = some (j, []))
    (hrest : EndsNumber rest) : value? (fuel + 1) depth (cs ++ rest) = some (j, rest) := by
  obtain ⟨c, cs, rfl, hc⟩ := number?_head h
  exact (value?_number hc _).trans (number?_append hrest h)

theorem endsNumber_cons {c : Char} (h : c.isDigit = false ∧ c ≠ '.' ∧ c ≠ 'e' ∧ c ≠ 'E') (cs : List Char) :
    EndsNumber (c :: cs) := by
  intro d hd
  cases hd
  exact h

mutual

/-- A value is read as it is written, whatever stands behind it. -/
theorem value?_text (j : Json) : ∀ {fuel depth : Nat} {rest : List Char}, ReadsBack depth j → EndsNumber rest →
    (text j).toList.length ≤ fuel → value? fuel depth ((text j).toList ++ rest) = some (j, rest) := by
  intro fuel depth rest h hrest hfuel
  obtain ⟨fuel, rfl⟩ : ∃ fuel', fuel = fuel' + 1 := by
    obtain ⟨c, cs, hcs, -⟩ := exists_cons_text h
    rw [hcs] at hfuel
    exact Nat.exists_eq_add_one_of_ne_zero (Nat.ne_zero_of_lt hfuel)
  revert h hfuel
  match j with
  | null => exact fun _ _ => rfl
  | bool true => exact fun _ _ => rfl
  | bool false => exact fun _ _ => rfl
  | int i => exact fun h _ => value?_of_number? (number?_int h.1 h.2) hrest
  | real x => exact fun h _ => value?_of_number? h hrest
  | str s =>
    intro _ _
    have hquote : value? (fuel + 1) depth ((quoted s).toList ++ rest) =
        (string? ((quoted s).toList ++ rest)).map fun p => (str p.1, p.2) := by
      rw [toList_quoted]
      rfl
    exact hquote.trans (congrArg (Option.map _) (string?_quoted s rest))
  | arr [] =>
    intro h _
    show (if depth ≤ 1 then none else some (arr [], rest)) = _
    rw [if_neg (Nat.not_le_of_lt h.1)]
  | arr (j :: js) =>
    intro h hfuel
    rw [toList_text_arr, List.length_cons, List.length_append] at hfuel
    obtain ⟨c, cs, hcs, hblank, hbracket⟩ := exists_cons_itemChars h.2.1 js
    have hitems : items? fuel (depth - 1) #[] (itemChars (j :: js) ++ ']' :: rest) = some (arr (j :: js), rest) :=
      items?_itemChars (j :: js) (List.cons_ne_nil _ _) h.2 (Nat.le_of_succ_le_succ hfuel)
    rw [hcs] at hitems
    rw [toList_text_arr, hcs, List.cons_append, List.append_assoc, List.cons_append,
      value?_bracket h.1 hblank hbracket]
    exact hitems
  | obj [] =>
    intro h _
    show (if depth ≤ 1 then none else some (obj [], rest)) = _
    rw [if_neg (Nat.not_le_of_lt h.1)]
  | obj ((name, j) :: ms) =>
    intro h hfuel
    rw [toList_text_obj, List.length_cons, List.length_append] at hfuel
    obtain ⟨cs, hcs⟩ := exists_cons_memberChars name j ms
    have hmembers : members? fuel (depth - 1) #[] (memberChars ((name, j) :: ms) ++ '\x7d' :: rest) =
        some (obj ((name, j) :: ms), rest) :=
      members?_memberChars ((name, j) :: ms) (List.cons_ne_nil _ _) h.2 (Nat.le_of_succ_le_succ hfuel)
    rw [hcs] at hmembers
    rw [toList_text_obj, hcs, List.cons_append, List.append_assoc, List.cons_append, value?_brace h.1]
    exact hmembers

theorem items?_itemChars (items : List Json) : ∀ {fuel depth : Nat} {acc : Array Json} {rest : List Char},
    items ≠ [] → ItemsReadBack depth items → (itemChars items).length < fuel →
    items? fuel depth acc (itemChars items ++ ']' :: rest) = some (arr (acc.toList ++ items), rest) := by
  match items with
  | [] =>
    intro _ _ _ _ hne
    exact absurd rfl hne
  | [j] =>
    intro fuel depth acc rest _ h hfuel
    obtain ⟨fuel, rfl⟩ := Nat.exists_eq_add_one_of_ne_zero (Nat.ne_zero_of_lt hfuel)
    rw [itemChars_singleton] at hfuel ⊢
    have hread : value? fuel depth ((text j).toList ++ ']' :: rest) = some (j, ']' :: rest) :=
      value?_text j h.1 (endsNumber_cons (by decide) rest) (Nat.le_of_lt_succ hfuel)
    rw [items?_last hread, Array.toList_push]
  | j :: j' :: js =>
    intro fuel depth acc rest _ h hfuel
    obtain ⟨fuel, rfl⟩ := Nat.exists_eq_add_one_of_ne_zero (Nat.ne_zero_of_lt hfuel)
    rw [itemChars_cons_cons] at hfuel ⊢
    rw [List.length_append, List.length_cons] at hfuel
    have hread : value? fuel depth ((text j).toList ++ ',' :: (itemChars (j' :: js) ++ ']' :: rest)) =
        some (j, ',' :: (itemChars (j' :: js) ++ ']' :: rest)) :=
      value?_text j h.1 (endsNumber_cons (by decide) _) (by omega)
    rw [List.append_assoc, List.cons_append, items?_next hread,
      items?_itemChars (j' :: js) (List.cons_ne_nil _ _) h.2 (by omega), Array.toList_push, List.append_assoc]
    rfl

theorem members?_memberChars (members : List (String × Json)) :
    ∀ {fuel depth : Nat} {acc : Array (String × Json)} {rest : List Char},
    members ≠ [] → MembersReadBack depth members → (memberChars members).length < fuel →
    members? fuel depth acc (memberChars members ++ '\x7d' :: rest) = some (obj (acc.toList ++ members), rest) := by
  match members with
  | [] =>
    intro _ _ _ _ hne
    exact absurd rfl hne
  | [(name, j)] =>
    intro fuel depth acc rest _ h hfuel
    obtain ⟨fuel, rfl⟩ := Nat.exists_eq_add_one_of_ne_zero (Nat.ne_zero_of_lt hfuel)
    rw [memberChars_singleton] at hfuel ⊢
    rw [List.length_append, List.length_cons] at hfuel
    have hread : value? fuel depth ((text j).toList ++ '\x7d' :: rest) = some (j, '\x7d' :: rest) :=
      value?_text j h.1 (endsNumber_cons (by decide) rest) (by omega)
    rw [List.append_assoc, List.cons_append, members?_last hread, Array.toList_push]
  | (name, j) :: m :: ms =>
    intro fuel depth acc rest _ h hfuel
    obtain ⟨fuel, rfl⟩ := Nat.exists_eq_add_one_of_ne_zero (Nat.ne_zero_of_lt hfuel)
    rw [memberChars_cons_cons] at hfuel ⊢
    rw [List.length_append, List.length_cons, List.length_append, List.length_cons] at hfuel
    have hread : value? fuel depth ((text j).toList ++ ',' :: (memberChars (m :: ms) ++ '\x7d' :: rest)) =
        some (j, ',' :: (memberChars (m :: ms) ++ '\x7d' :: rest)) :=
      value?_text j h.1 (endsNumber_cons (by decide) _) (by omega)
    rw [List.append_assoc, List.cons_append, List.append_assoc, List.cons_append, members?_next hread,
      members?_memberChars (m :: ms) (List.cons_ne_nil _ _) h.2 (by omega), Array.toList_push, List.append_assoc]
    rfl

end

/-! ## Lines -/

/-- A text that holds no newline. -/
def OneLine (s : String) : Prop := '\n' ∉ s.toList

instance (s : String) : Decidable (OneLine s) := inferInstanceAs (Decidable (¬ '\n' ∈ s.toList))

theorem OneLine.append {s t : String} (hs : OneLine s) (ht : OneLine t) : OneLine (s ++ t) := by
  unfold OneLine
  rw [String.toList_append]
  exact fun h => (List.mem_append.1 h).elim hs ht

theorem oneLine_ofList {cs : List Char} (h : '\n' ∉ cs) : OneLine (String.ofList cs) := by
  unfold OneLine
  rwa [String.toList_ofList]

theorem newline_not_mem_toDigits (n : Nat) : '\n' ∉ Nat.toDigits 10 n := fun h =>
  absurd (Nat.isDigit_of_mem_toDigits (by decide) (by decide) h) (by decide)

theorem oneLine_natCast (n : Nat) : OneLine (toString n) := by
  rw [Nat.toString_eq_ofList_toDigits]
  exact oneLine_ofList (newline_not_mem_toDigits n)

theorem oneLine_int (i : Int) : OneLine (toString i) := by
  cases i with
  | ofNat n => exact oneLine_natCast n
  | negSucc n => exact OneLine.append (s := "-") (by decide) (oneLine_natCast (n + 1))

theorem oneLine_signText (x : Double) : OneLine x.signText := by
  unfold Double.signText
  split <;> decide

theorem oneLine_positional (n places : Nat) : OneLine (Double.positional n places) := by
  unfold Double.positional
  split
  · exact oneLine_natCast n
  · refine ((oneLine_natCast _).append (by decide)).append (oneLine_ofList fun h => ?_)
    rcases List.mem_append.1 h with h | h
    · exact absurd (List.eq_of_mem_replicate h) (by decide)
    · exact newline_not_mem_toDigits _ h

theorem oneLine_dataText (x : Double) : OneLine x.dataText := by
  unfold Double.dataText
  split
  · decide
  · decide
  · next s m e =>
    dsimp only
    split
    · refine (oneLine_signText _).append ?_
      split
      · exact (oneLine_natCast _).append (by decide)
      · exact oneLine_positional _ _
    · have hdigits := newline_not_mem_toDigits (Double.shortest m e).1
      refine OneLine.append (OneLine.append (OneLine.append (OneLine.append (oneLine_signText _) ?_) ?_) ?_) ?_
      · exact oneLine_ofList fun h => hdigits (List.mem_of_mem_take h)
      · split
        · decide
        · exact OneLine.append (s := ".") (by decide) (oneLine_ofList fun h => hdigits (List.mem_of_mem_drop h))
      · decide
      · exact oneLine_int _

theorem oneLine_quoted (s : String) : OneLine (quoted s) := by
  refine OneLine.append (OneLine.append (by decide) (oneLine_ofList fun h => ?_)) (by decide)
  obtain ⟨c, -, hc⟩ := List.mem_flatMap.1 h
  exact newline_not_mem_escapeChar c hc

theorem oneLine_intercalate {ts : List String} (h : ∀ t ∈ ts, OneLine t) : OneLine (String.intercalate "," ts) := by
  induction ts with
  | nil => decide
  | cons t ts ih =>
    cases ts with
    | nil =>
      rw [String.intercalate_singleton]
      exact h t List.mem_cons_self
    | cons t' ts =>
      rw [String.intercalate_cons_cons]
      exact ((h t List.mem_cons_self).append (by decide)).append (ih fun u hu => h u (List.mem_cons_of_mem t hu))

mutual

theorem oneLine_text : ∀ j : Json, OneLine (text j)
  | null => by decide
  | bool true => by decide
  | bool false => by decide
  | int i => oneLine_int i
  | real x => oneLine_dataText x
  | str s => oneLine_quoted s
  | arr items =>
    ((show OneLine "[" by decide).append (oneLine_intercalate (oneLine_itemTexts items))).append (by decide)
  | obj members =>
    ((show OneLine "\x7b" by decide).append (oneLine_intercalate (oneLine_memberTexts members))).append (by decide)

theorem oneLine_itemTexts : ∀ items : List Json, ∀ t ∈ itemTexts items, OneLine t
  | [] => nofun
  | j :: js => by
    intro t ht
    rcases List.mem_cons.1 ht with rfl | ht
    · exact oneLine_text j
    · exact oneLine_itemTexts js t ht

theorem oneLine_memberTexts : ∀ members : List (String × Json), ∀ t ∈ memberTexts members, OneLine t
  | [] => nofun
  | (name, j) :: ms => by
    intro t ht
    rcases List.mem_cons.1 ht with rfl | ht
    · exact ((oneLine_quoted name).append (by decide)).append (oneLine_text j)
    · exact oneLine_memberTexts ms t ht

end

/-- The newline that ends a message is the only one. -/
theorem toList_encodeLine (j : Json) : ∃ cs, '\n' ∉ cs ∧ (encodeLine j).toList = cs ++ ['\n'] :=
  ⟨_, oneLine_text j, String.toList_append⟩

theorem ofChars?_text {j : Json} (h : ReadsBack 128 j) : ofChars? (text j).toList = some j := by
  have hread := value?_text j h endsNumber_nil (Nat.le_succ _)
  rw [List.append_nil] at hread
  unfold ofChars?
  rw [hread]
  rfl

/-- A record is read from the line that it is written on, whatever blanks end the line. -/
theorem decodeLine?_text_append {members : List (String × Json)} (h : ReadsBack 128 (obj members)) {blanks : String}
    (hblank : Text.trimEnd blanks.toList = []) : decodeLine? (text (obj members) ++ blanks) = some (obj members) := by
  have htrim : Text.trimEnd (text (obj members) ++ blanks).toList = (text (obj members)).toList := by
    rw [String.toList_append, toList_text_obj, List.cons_append, List.append_assoc, ← List.cons_append]
    refine (Text.dropEndWhile_append_cons (by decide) _ _).trans ?_
    have hrest : Text.dropEndWhile Text.isSpace ([] ++ blanks.toList) = [] := hblank
    exact congrArg (fun cs => '\x7b' :: memberChars members ++ '\x7d' :: cs) hrest
  unfold decodeLine?
  rw [htrim, ofChars?_text h]

end Pseudoscribe.Json
