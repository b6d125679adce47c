import Pseudoscribe.Proofs.Code.Unknown

/-!
# Names and the blocks that they are declared in

In JavaScript a plain name is declared by the line that assigns to it first, and a header declares the names of its
parameters and of its counter.  Whoever reads the code finds a name as long as the block of its declaration is open; the
emitter knows it ever after.
-/

namespace Pseudoscribe

/-- The line of code declares the name, for the block that it stands in or for the one that it opens. -/
inductive Declares (name : String) : List Char → Prop
  | value (blanks : Nat) (value : List Char) : Declares name
      (List.replicate blanks ' ' ++ ("let ".toList ++ name.toList ++ " = ".toList ++ value ++ [';']))
  | count (blanks : Nat) (start stop : List Char) (step : Option (List Char)) : Declares name
      (List.replicate blanks ' ' ++ Form.range .javascript name.toList start stop step)
  | each (blanks : Nat) (items : List Char) : Declares name
      (List.replicate blanks ' ' ++ Form.each .javascript name.toList items)
  | parameter (blanks : Nat) (function : String) (params : List String) (among : name ∈ params) : Declares name
      (List.replicate blanks ' ' ++ Form.function .javascript function params)

/-- The line of code assigns to the name and does not declare it. -/
inductive Assigns (name : String) : List Char → Prop
  | value (blanks : Nat) (value : List Char) : Assigns name
      (List.replicate blanks ' ' ++ (name.toList ++ " = ".toList ++ value ++ [';']))

namespace ReadLine

/-- The names that the line declares if it is the header of a block. -/
def headed (l : ReadLine) : List String :=
  match LineShape.ofLine l.scanned.masked with
  | .opens kind _ => (Header.ofText kind (Header.strip l.code)).declares
  | _ => []

/-- The name that the line assigns to if it is a plain one. -/
def assigned? (l : ReadLine) : Option String :=
  match LineShape.ofLine l.scanned.masked with
  | .plain => (Form.newName? (Statement.ofCode (Statement.strip l.code))).map String.ofList
  | _ => none

theorem assigned?_of_empty {l : ReadLine} (h : Text.trim l.scanned.masked = []) : l.assigned? = none := by
  have hcode : l.code = [] := by
    rw [code, FrameStep.codeOf, h]
    rfl
  have hnothing : Form.newName? (Statement.ofCode (Statement.strip [])) = none := by decide +kernel
  unfold assigned?
  rw [LineShape.ofLine_of_trim_eq_nil h, hcode]
  dsimp only
  rw [hnothing]
  rfl

theorem headed_of_plain {l : ReadLine} (h : LineShape.ofLine l.scanned.masked = .plain) : l.headed = [] := by
  rw [headed, h]

end ReadLine

namespace Form

/-- A name that may have to be declared stands in front of its value. -/
theorem statement_of_newName? {s : Statement} {name : List Char} (h : newName? s = some name) :
    ∃ value, ∀ declares, statement .javascript declares s =
      some ((if declares then "let ".toList else []) ++ name ++ " = ".toList ++ value ++ [';']) := by
  unfold newName? at h
  split at h
  · next target value =>
    dsimp only at h
    split at h
    · next hplain =>
      obtain ⟨hlength, -⟩ := Bool.and_eq_true_iff.1 hplain
      cases h
      refine ⟨Expression.render .javascript value, fun declares => ?_⟩
      have hno : ((Text.trimEnd (Text.dropEndWhile Phrase.isSign target)).length != target.length) = false := by
        rw [bne, hlength]
        rfl
      unfold statement assignment
      dsimp only
      rw [hno]
      cases declares <;> simp [Target.terminator]
    · cases h
  · cases h
    refine ⟨"prompt()".toList, fun declares => ?_⟩
    unfold statement
    cases declares <;> simp
  · cases h

theorem newName?_of_statement {s : Statement} {declares : Bool} (h : statement .javascript declares s = none) :
    newName? s = none := by
  cases hname : newName? s with
  | none => rfl
  | some name =>
    obtain ⟨value, hvalue⟩ := statement_of_newName? hname
    rw [hvalue] at h
    cases h

/-- A header that declares a name is written with the name. -/
theorem header_of_declares {h : Header} {name : String} (hname : name ∈ h.declares) : ∃ line,
    header .javascript h = some line ∧ ∀ blanks, Declares name (List.replicate blanks ' ' ++ line) := by
  unfold Header.declares at hname
  split at hname
  · next function params => exact ⟨_, rfl, fun blanks => .parameter blanks function params hname⟩
  · next var start stop step =>
    rw [List.mem_singleton.1 hname]
    have hform (blanks : Nat) := @Declares.count (String.ofList var) blanks (Expression.render .javascript start)
      (Expression.render .javascript stop) (step.map (Expression.render .javascript))
    rw [String.toList_ofList] at hform
    exact ⟨_, rfl, hform⟩
  · next var items =>
    rw [List.mem_singleton.1 hname]
    have hform (blanks : Nat) := @Declares.each (String.ofList var) blanks (Expression.render .javascript items)
    rw [String.toList_ofList] at hform
    exact ⟨_, rfl, hform⟩
  · cases hname

theorem declares_of_header {t : Target} {h : Header} (hnone : header t h = none) : h.declares = [] := by
  cases h <;> first | rfl | cases hnone

end Form

namespace Emitter

/-! ## What is declared -/

theorem declared_closing (e : Emitter) (f : Frame) : (e.closing f).declared = e.declared := by
  unfold closing
  split
  · rfl
  · split
    · split <;> rfl
    · rfl

theorem declared_pop (e : Emitter) : e.pop.declared = e.declared := by
  unfold pop
  split
  · rfl
  · next f fs _ => exact declared_closing { e with stack := fs } f

theorem declared_popMany (count : Nat) (e : Emitter) : (popMany count e).declared = e.declared := by
  induction count generalizing e with
  | zero => rfl
  | succ k ih => rw [popMany, ih, declared_pop]

theorem declared_dedent (e : Emitter) (indent : Nat) (continuation : Bool) :
    (e.dedent indent continuation).declared = e.declared := declared_popMany _ e

theorem declared_close (e : Emitter) (kind : Option BlockKind) (code : List Char) :
    (e.close kind code).declared = e.declared := by
  unfold close
  dsimp only
  split
  · next test above _ _ =>
    have huntil (d : Emitter) : (d.popUntil test).declared = d.declared := by
      unfold popUntil
      dsimp only
      split <;> rfl
    rw [huntil, declared_popMany]
  · split
    · exact declared_popMany _ e
    · rfl

theorem declared_carryOn (e : Emitter) (code : List Char) : (e.carryOn code).2.declared = e.declared := by
  unfold carryOn
  split
  · dsimp only
    split <;> rfl
  · rfl

theorem declared_opens (e : Emitter) (code : List Char) (kind : BlockKind) (style : BlockStyle) (indent : Nat) :
    (e.opens code kind style indent).2.declared =
      (Header.ofText kind (Header.strip code)).declares ++ e.declared := by
  unfold opens
  dsimp only
  split
  · next hgroup => rw [hgroup]; rfl
  · next hnone _ => rw [Form.declares_of_header hnone]; rfl
  · rfl

/-- The name that a statement declares, if it assigns to one that is not declared yet. -/
def fresh (e : Emitter) (name : Option String) : List String := (name.filter (!e.declared.contains ·)).toList

theorem declared_plain {e : Emitter} (h : e.target = .javascript) (code : List Char) : (e.plain code).2.declared =
    e.fresh ((Form.newName? (Statement.ofCode (Statement.strip code))).map String.ofList) ++ e.declared := by
  unfold plain fresh
  dsimp only
  rw [h, if_pos rfl]
  split
  · next hs => rw [hs]; rfl
  · next hnone _ => rw [Form.newName?_of_statement hnone]; rfl
  · rfl

/-- A line declares the names of its header, or the name that it assigns to if that is new. -/
theorem declared_line {e : Emitter} (h : e.target = .javascript) (l : ReadLine) :
    (e.line l.scanned l.raw).2.declared = l.headed ++ e.fresh l.assigned? ++ e.declared := by
  cases e.lineCase l.scanned l.raw with
  | comment hempty heq =>
    rw [heq, ReadLine.headed_of_plain (LineShape.ofLine_of_trim_eq_nil hempty), ReadLine.assigned?_of_empty hempty]
    exact declared_dedent e _ _
  | plain shape _ heq =>
    have hdeclared := declared_dedent e l.scanned.indent false
    rw [heq, ReadLine.headed_of_plain shape, ReadLine.assigned?, shape, declared_plain ((target_dedent e _ _).trans h),
      fresh, hdeclared, List.nil_append]
    rfl
  | continues style shape heq =>
    rw [heq, ReadLine.headed, ReadLine.assigned?, shape, declared_carryOn, declared_dedent]
    rfl
  | opens kind style shape heq =>
    rw [heq, ReadLine.headed, ReadLine.assigned?, shape, declared_opens, declared_dedent]
    dsimp only
    rw [List.append_assoc]
    rfl
  | closes kind style shape heq =>
    rw [heq, ReadLine.headed, ReadLine.assigned?, shape, declared_close, declared_dedent]
    rfl

/-! ## Declarations and assignments as they are written -/

theorem writesLast_statement {e d : Emitter} (h : e.Extends d) (text : List Char) :
    e.WritesLast (d.statement text) (List.replicate (d.depth * d.width) ' ' ++ text) :=
  ⟨d.out.toList, h.out, Array.toList_push⟩

/-- A name stands in front of its value, behind `let` if it is new. -/
theorem plain_of_newName? {e : Emitter} (h : e.target = .javascript) {code name : List Char}
    (hname : Form.newName? (Statement.ofCode (Statement.strip code)) = some name) : ∃ value,
      (e.plain code).2 = (e.declare (e.fresh (some (String.ofList name)))).statement
        ((if e.declared.contains (String.ofList name) then [] else "let ".toList) ++ name ++ " = ".toList ++
          value ++ [';']) := by
  have hnew : (some (String.ofList name)).filter (!e.declared.contains ·) =
      if e.declared.contains (String.ofList name) then none else some (String.ofList name) := by
    rw [Option.filter_some]
    cases e.declared.contains (String.ofList name) <;> rfl
  unfold plain fresh
  dsimp only
  rw [h, if_pos rfl, hname, Option.map_some, hnew]
  obtain ⟨value, hvalue⟩ := Form.statement_of_newName? hname
  refine ⟨value, ?_⟩
  split
  · next hs =>
    rw [hs] at hname
    cases hname
  · next hnone _ =>
    rw [hvalue] at hnone
    cases hnone
  · next hline _ =>
    rw [hvalue] at hline
    cases hline
    cases e.declared.contains (String.ofList name) <;> rfl

theorem line_of_assigned {e : Emitter} (h : e.target = .javascript) {l : ReadLine} {name : String}
    (hname : l.assigned? = some name) : ∃ blanks value, e.WritesLast (e.line l.scanned l.raw).2
      (List.replicate blanks ' ' ++ ((if e.declared.contains name then [] else "let ".toList) ++ name.toList ++
        " = ".toList ++ value ++ [';'])) := by
  cases e.lineCase l.scanned l.raw with
  | comment hempty _ =>
    rw [ReadLine.assigned?_of_empty hempty] at hname
    cases hname
  | continues _ shape | opens _ _ shape | closes _ _ shape =>
    rw [ReadLine.assigned?, shape] at hname
    cases hname
  | plain shape _ heq =>
    rw [ReadLine.assigned?, shape] at hname
    obtain ⟨cs, hcs, rfl⟩ := Option.map_eq_some_iff.1 hname
    have htext : (String.ofList cs).toList = cs := String.toList_ofList
    obtain ⟨value, hvalue⟩ := plain_of_newName? ((target_dedent e l.scanned.indent false).trans h) hcs
    rw [declared_dedent] at hvalue
    rw [heq, show FrameStep.codeOf l.scanned l.raw = l.code from rfl, hvalue, htext]
    have hextends : e.Extends (e.dedent l.scanned.indent false) := extends_popMany _ e
    exact ⟨_, value, writesLast_statement (hextends.trans (extends_declare _ _)) _⟩

theorem opens_of_declares {e : Emitter} (h : e.target = .javascript) {code : List Char} {kind : BlockKind}
    {name : String} (hname : name ∈ (Header.ofText kind (Header.strip code)).declares) (style : BlockStyle)
    (indent : Nat) : ∃ line, (∀ blanks, Declares name (List.replicate blanks ' ' ++ line)) ∧ ∃ names frame,
      (e.opens code kind style indent).2 = ((e.declare names).statement line).push frame style indent := by
  obtain ⟨line, hline, hdeclares⟩ := Form.header_of_declares hname
  refine ⟨line, hdeclares, ?_⟩
  unfold opens
  dsimp only
  rw [h]
  split
  · next hgroup =>
    rw [hgroup] at hname
    cases hname
  · next hnone _ =>
    rw [hline] at hnone
    cases hnone
  · next hsome _ =>
    rw [hline] at hsome
    cases hsome
    exact ⟨_, _, rfl⟩

/-- What the line writes last if it declares this name. -/
theorem declares_line {e : Emitter} (h : e.target = .javascript) {l : ReadLine} {name : String}
    (hname : name ∈ l.headed ++ e.fresh l.assigned?) :
    ∃ line, Declares name line ∧ e.WritesLast (e.line l.scanned l.raw).2 line := by
  rcases List.mem_append.1 hname with hheaded | hfresh
  · cases e.lineCase l.scanned l.raw with
    | comment hempty _ =>
      rw [ReadLine.headed_of_plain (LineShape.ofLine_of_trim_eq_nil hempty)] at hheaded
      cases hheaded
    | plain shape | continues _ shape | closes _ _ shape =>
      rw [ReadLine.headed, shape] at hheaded
      cases hheaded
    | opens kind style shape heq =>
      rw [ReadLine.headed, shape] at hheaded
      have hextends : e.Extends (e.dedent l.scanned.indent false) := extends_popMany _ e
      obtain ⟨line, hdeclares, names, frame, hopens⟩ := opens_of_declares
        ((target_dedent e l.scanned.indent false).trans h) hheaded style l.scanned.indent
      rw [heq, show FrameStep.codeOf l.scanned l.raw = l.code from rfl, hopens]
      exact ⟨_, hdeclares _, writesLast_statement (hextends.trans (extends_declare _ names)) line⟩
  · obtain ⟨hassigned, hnew⟩ := Option.filter_eq_some_iff.1 (Option.mem_toList.1 hfresh)
    obtain ⟨blanks, value, hwrites⟩ := line_of_assigned h hassigned
    rw [Bool.not_eq_true'] at hnew
    rw [hnew, if_neg Bool.false_ne_true] at hwrites
    exact ⟨_, .value blanks value, hwrites⟩

/-- What the line writes last if it assigns to a name that is declared. -/
theorem assigns_line {e : Emitter} (h : e.target = .javascript) {l : ReadLine} {name : String}
    (hname : l.assigned? = some name) (hdeclared : e.declared.contains name = true) :
    ∃ line, Assigns name line ∧ e.WritesLast (e.line l.scanned l.raw).2 line := by
  obtain ⟨blanks, value, hwrites⟩ := line_of_assigned h hname
  rw [hdeclared, if_pos rfl, List.nil_append] at hwrites
  exact ⟨_, .value blanks value, hwrites⟩

end Emitter

namespace Generation

namespace Progress

/-- The next line, if it holds more than blanks and does not begin inside of a literal. -/
def next? (p : Progress) (raw : List Char) : Option ReadLine :=
  if (p.scanner.feed raw).1.startsInLiteral || Text.isBlank raw then none else some (p.scanner.read raw)

/-- The names that the next line declares. -/
def declares (p : Progress) (raw : List Char) : List String :=
  match p.next? raw with
  | none => []
  | some l => l.headed ++ p.emitter.fresh l.assigned?

/-- The next line assigns to this name, which is declared already. -/
def reassigns (p : Progress) (raw : List Char) (name : String) : Bool :=
  (p.next? raw).any (·.assigned? == some name) && p.emitter.declared.contains name

theorem feed_of_next {p : Progress} {raw : List Char} {l : ReadLine} (h : p.next? raw = some l) :
    (p.feed raw).emitter = (p.emitter.line l.scanned l.raw).2 := by
  unfold next? at h
  split at h
  · cases h
  · next hlook =>
    rw [Bool.or_eq_true, not_or] at hlook
    cases h
    rw [emitter_feed, if_neg hlook.1, if_neg hlook.2]
    rfl

theorem feed_of_no_next {p : Progress} {raw : List Char} (h : p.next? raw = none) :
    (p.feed raw).emitter = p.emitter.emit (Text.trimEnd raw) := by
  unfold next? at h
  rw [emitter_feed]
  split at h
  · next hlook =>
    split
    · rfl
    · next hcode =>
      rw [Bool.or_eq_true] at hlook
      have hblank := hlook.resolve_left hcode
      rw [if_pos hblank, show Text.trimEnd raw = [] from Text.trimEnd_append_blank hblank []]
  · cases h

theorem declared_feed {p : Progress} (h : p.emitter.target = .javascript) (raw : List Char) :
    (p.feed raw).emitter.declared = p.declares raw ++ p.emitter.declared := by
  unfold declares
  cases hnext : p.next? raw with
  | some l => rw [feed_of_next hnext, Emitter.declared_line h]
  | none =>
    rw [feed_of_no_next hnext]
    rfl

theorem writes_of_declares {p : Progress} (h : p.emitter.target = .javascript) {raw : List Char} {name : String}
    (hname : name ∈ p.declares raw) :
    ∃ line, Declares name line ∧ p.emitter.WritesLast (p.feed raw).emitter line := by
  unfold declares at hname
  split at hname
  · cases hname
  · next l hnext =>
    rw [feed_of_next hnext]
    exact Emitter.declares_line h hname

theorem writes_of_reassigns {p : Progress} (h : p.emitter.target = .javascript) {raw : List Char} {name : String}
    (hname : p.reassigns raw name = true) :
    ∃ line, Assigns name line ∧ p.emitter.WritesLast (p.feed raw).emitter line := by
  obtain ⟨hassigns, hdeclared⟩ := Bool.and_eq_true_iff.1 hname
  obtain ⟨l, hnext, hassigned⟩ := (Option.any_eq_true _ _).1 hassigns
  rw [feed_of_next hnext]
  exact Emitter.assigns_line h (eq_of_beq hassigned) hdeclared

/-- A line that assigns to a name that is declared already declares none. -/
theorem declares_of_reassigns {p : Progress} {raw : List Char} {name : String} (h : p.reassigns raw name = true) :
    p.declares raw = [] := by
  obtain ⟨hassigns, hdeclared⟩ := Bool.and_eq_true_iff.1 h
  obtain ⟨l, hnext, hassigned⟩ := (Option.any_eq_true _ _).1 hassigns
  have hheaded : l.headed = [] := by
    unfold ReadLine.assigned? at hassigned
    split at hassigned
    · next shape => exact ReadLine.headed_of_plain shape
    · cases eq_of_beq hassigned
  have hfresh : p.emitter.fresh l.assigned? = [] := by
    rw [eq_of_beq hassigned, Emitter.fresh, Option.filter_some, hdeclared]
    rfl
  rw [declares, hnext]
  dsimp only
  rw [hheaded, hfresh, List.append_nil]

/-- The lines begin with some that go up to one that declares the name. -/
def DeclaredBy (p : Progress) (name : String) (raws first : List (List Char)) (raw : List Char)
    (rest : List (List Char)) : Prop :=
  raws = first ++ raw :: rest ∧ name ∈ (first.foldl feed p).declares raw

/-! ## Blocks -/

/-- How few blocks are open while the next line is read: behind its indentation, where it is written, and behind it. -/
def fewest (p : Progress) (raw : List Char) : Nat :=
  match p.next? raw with
  | none => p.emitter.depth
  | some l => min (min (p.within raw) (p.feed raw).emitter.depth)
      (if p.isUnknown raw then p.within raw else (p.emitter.nesting l.scanned raw).level)

/-- So many blocks stay open while the lines are read. -/
def keepsOpen (p : Progress) (depth : Nat) : List (List Char) → Bool
  | [] => true
  | raw :: raws => depth ≤ p.fewest raw && (p.feed raw).keepsOpen depth raws

/-- The names that are in scope behind the next line, block by block, the outermost first. -/
def scopesBehind (p : Progress) (scopes : List (List String)) (raw : List Char) : List (List String) :=
  let depth := (p.feed raw).emitter.depth
  (scopes.take (p.fewest raw + 1) ++ List.replicate (depth - p.fewest raw) []).modify depth (p.declares raw ++ ·)

/-- The names that are in scope behind the lines. -/
def scopes (p : Progress) (before : List (List String)) : List (List Char) → List (List String)
  | [] => before
  | raw :: raws => (p.feed raw).scopes (p.scopesBehind before raw) raws

theorem fewest_le_depth (p : Progress) (raw : List Char) : p.fewest raw ≤ p.emitter.depth := by
  have hwithin := p.within_le_depth raw
  unfold fewest
  split
  · exact Nat.le_refl _
  · omega

theorem fewest_le_behind (p : Progress) (raw : List Char) : p.fewest raw ≤ (p.feed raw).emitter.depth := by
  unfold fewest
  split
  · next hnext =>
    rw [feed_of_no_next hnext]
    exact Nat.le_refl _
  · omega

variable {p : Progress} {scopes : List (List String)}

theorem length_scopesBehind (h : scopes.length = p.emitter.depth + 1) (raw : List Char) :
    (p.scopesBehind scopes raw).length = (p.feed raw).emitter.depth + 1 := by
  have hdepth := p.fewest_le_depth raw
  have hbehind := p.fewest_le_behind raw
  simp only [scopesBehind, List.length_modify, List.length_append, List.length_take, List.length_replicate, h]
  omega

/-- A name is in the scope of a block behind a line if it was there and the block has stayed open, or if the line
declares it for the innermost block. -/
theorem mem_scopesBehind (h : scopes.length = p.emitter.depth + 1) {raw : List Char} {depth : Nat} {name : String} :
    (∃ names ∈ (p.scopesBehind scopes raw)[depth]?, name ∈ names) ↔
      depth ≤ p.fewest raw ∧ (∃ names ∈ scopes[depth]?, name ∈ names) ∨
        depth = (p.feed raw).emitter.depth ∧ name ∈ p.declares raw := by
  have hdepth := p.fewest_le_depth raw
  have hbehind := p.fewest_le_behind raw
  have hblocks : (scopes.take (p.fewest raw + 1) ++
      List.replicate ((p.feed raw).emitter.depth - p.fewest raw) [])[depth]? =
        if depth ≤ p.fewest raw then scopes[depth]?
        else if depth ≤ (p.feed raw).emitter.depth then some [] else none := by
    rw [List.getElem?_append, List.length_take, List.getElem?_take, List.getElem?_replicate]
    split_ifs <;> first | rfl | omega
  rw [scopesBehind, List.getElem?_modify, hblocks]
  by_cases hkept : depth ≤ p.fewest raw
  · obtain ⟨names, hnames⟩ : ∃ names, scopes[depth]? = some names := ⟨_, List.getElem?_eq_getElem (by omega)⟩
    rw [if_pos hkept, hnames]
    by_cases hinner : (p.feed raw).emitter.depth = depth
    · simp [hinner, hkept, or_comm]
    · simp [hinner, hkept, Ne.symm hinner]
  · rw [if_neg hkept]
    by_cases hinner : (p.feed raw).emitter.depth = depth
    · simp [hinner, hkept]
    · simp only [hinner, hkept, Ne.symm hinner, false_and, or_false, if_false, Option.map_eq_map, Option.map_id']
      split <;> simp

/-- Behind some lines a name is in the scope of a block if it was there and the block has stayed open, or if one of
them declares it for the block and the block has stayed open since. -/
theorem mem_scopes (h : scopes.length = p.emitter.depth + 1) {raws : List (List Char)} {depth : Nat} {name : String} :
    (∃ names ∈ (p.scopes scopes raws)[depth]?, name ∈ names) ↔
      p.keepsOpen depth raws = true ∧ (∃ names ∈ scopes[depth]?, name ∈ names) ∨
        ∃ first raw rest, p.DeclaredBy name raws first raw rest ∧
          depth = ((first ++ [raw]).foldl feed p).emitter.depth ∧
            ((first ++ [raw]).foldl feed p).keepsOpen depth rest = true := by
  induction raws generalizing p scopes with
  | nil =>
    have hnone : ¬ ∃ first raw rest, p.DeclaredBy name [] first raw rest ∧
        depth = ((first ++ [raw]).foldl feed p).emitter.depth ∧
          ((first ++ [raw]).foldl feed p).keepsOpen depth rest = true :=
      fun ⟨first, raw, rest, hby, _⟩ => absurd hby.1 (by simp)
    rw [or_iff_left hnone, keepsOpen, Progress.scopes, and_iff_right rfl]
  | cons raw raws ih =>
    rw [Progress.scopes, ih (length_scopesBehind h raw), mem_scopesBehind h, keepsOpen, Bool.and_eq_true,
      decide_eq_true_eq]
    constructor
    · rintro (⟨hopen, ⟨hfewest, hnames⟩ | ⟨hdepth, hdeclares⟩⟩ | ⟨first, raw', rest, ⟨rfl, hname⟩, hrest⟩)
      · exact .inl ⟨⟨hfewest, hopen⟩, hnames⟩
      · exact .inr ⟨[], raw, raws, ⟨rfl, hdeclares⟩, hdepth, hopen⟩
      · exact .inr ⟨raw :: first, raw', rest, ⟨rfl, hname⟩, hrest⟩
    · rintro (⟨⟨hfewest, hopen⟩, hnames⟩ | ⟨first, raw', rest, ⟨hsplit, hname⟩, hdepth, hopen⟩)
      · exact .inl ⟨hopen, .inl ⟨hfewest, hnames⟩⟩
      · cases first with
        | nil =>
          cases hsplit
          exact .inl ⟨hopen, .inr ⟨hdepth, hname⟩⟩
        | cons first₀ first =>
          cases hsplit
          exact .inr ⟨first, raw', rest, ⟨rfl, hname⟩, hdepth, hopen⟩

/-- A name that is declared behind some lines was declared before, or one of them declares it. -/
theorem mem_declared_foldl (h : p.emitter.target = .javascript) {raws : List (List Char)} {name : String}
    (hname : name ∈ (raws.foldl feed p).emitter.declared) :
    name ∈ p.emitter.declared ∨ ∃ first raw rest, p.DeclaredBy name raws first raw rest := by
  induction raws generalizing p with
  | nil => exact .inl hname
  | cons raw raws ih =>
    rcases ih ((p.feed_keeps raw).2.trans h) hname with hbefore | ⟨first, raw', rest, rfl, hdeclares⟩
    · rw [declared_feed h, List.mem_append] at hbefore
      rcases hbefore with hdeclares | hbefore
      · exact .inr ⟨[], raw, raws, rfl, hdeclares⟩
      · exact .inl hbefore
    · exact .inr ⟨raw :: first, raw', rest, rfl, hdeclares⟩

theorem keepsOpen_zero (p : Progress) (raws : List (List Char)) : p.keepsOpen 0 raws = true := by
  induction raws generalizing p with
  | nil => rfl
  | cons raw raws ih => rw [keepsOpen, ih, decide_eq_true (Nat.zero_le _), Bool.and_self]

/-- The name is in the scope of a block that is open behind the lines. -/
def inScope (p : Progress) (raws : List (List Char)) (name : String) : Bool :=
  (p.scopes [[]] raws).any (·.contains name)

/-- One of the lines declares the name, and the block that it is declared for stays open while the lines behind them are
read. -/
def StaysDeclared (p : Progress) (raws behind : List (List Char)) (name : String) : Prop :=
  ∃ first raw rest, p.DeclaredBy name raws first raw rest ∧
    ((first ++ [raw]).foldl feed p).keepsOpen ((first ++ [raw]).foldl feed p).emitter.depth (rest ++ behind) = true

theorem staysDeclared_of_declares {raws : List (List Char)} {raw : List Char}
    (h : (raws.foldl feed p).declares raw = []) (name : String) :
    p.StaysDeclared (raws ++ [raw]) [] name ↔ p.StaysDeclared raws [raw] name := by
  constructor
  · rintro ⟨first, declaring, rest, ⟨hsplit, hdeclares⟩, hopen⟩
    rcases List.eq_nil_or_concat rest with rfl | ⟨rest, last, rfl⟩
    · obtain ⟨rfl, hlast⟩ := List.append_inj' hsplit rfl
      cases hlast
      rw [h] at hdeclares
      cases hdeclares
    · rw [List.concat_eq_append, ← List.cons_append, ← List.append_assoc] at hsplit
      obtain ⟨rfl, hlast⟩ := List.append_inj' hsplit rfl
      cases hlast
      rw [List.append_nil, List.concat_eq_append] at hopen
      exact ⟨first, declaring, rest, ⟨rfl, hdeclares⟩, hopen⟩
  · rintro ⟨first, declaring, rest, ⟨rfl, hdeclares⟩, hopen⟩
    exact ⟨first, declaring, rest ++ [raw], ⟨by simp, hdeclares⟩, by rwa [List.append_nil]⟩

theorem inScope_iff (h : p.emitter.depth = 0) (raws : List (List Char)) (name : String) :
    p.inScope raws name = true ↔ p.StaysDeclared raws [] name := by
  have hlevels : p.inScope raws name = true ↔
      ∃ depth : Nat, ∃ names ∈ (p.scopes [[]] raws)[depth]?, name ∈ names := by
    simp only [inScope, List.any_eq_true, List.contains_iff_mem, List.mem_iff_getElem?, Option.mem_def]
    exact ⟨fun ⟨names, ⟨depth, hdepth⟩, hname⟩ => ⟨depth, names, hdepth, hname⟩,
      fun ⟨depth, names, hdepth, hname⟩ => ⟨names, ⟨depth, hdepth⟩, hname⟩⟩
  have hnone (depth : Nat) : ¬ ∃ names ∈ ([[]] : List (List String))[depth]?, name ∈ names := by
    rintro ⟨names, hnames, hname⟩
    rw [List.mem_singleton.1 (List.mem_of_getElem? hnames)] at hname
    cases hname
  rw [hlevels]
  constructor
  · rintro ⟨depth, hdepth⟩
    rcases (mem_scopes (by rw [h]; rfl)).1 hdepth with ⟨-, hnames⟩ | ⟨first, raw, rest, hby, rfl, hopen⟩
    · exact absurd hnames (hnone depth)
    · exact ⟨first, raw, rest, hby, by rwa [List.append_nil]⟩
  · rintro ⟨first, raw, rest, hby, hopen⟩
    rw [List.append_nil] at hopen
    exact ⟨_, (mem_scopes (by rw [h]; rfl)).2 (.inr ⟨first, raw, rest, hby, rfl, hopen⟩)⟩

end Progress

/-- What is true of a line that assigns to a name that is declared already. -/
structure Reassigned (width : Nat) (source : List Char) (before : List (List Char)) (raw : List Char) (name : String) :
    Prop where
  /-- the assignment stands in the code behind a declaration of the name -/
  written : ∃ front declaration between assignment behind, (ofSource .javascript width {} source).code =
    joinLines (front ++ declaration :: (between ++ assignment :: behind)) ∧
      Declares name declaration ∧ Assigns name assignment
  /-- the name is in scope exactly if a block that a line before declares it for is still open -/
  scope : (begin .javascript width {}).inScope (before ++ [raw]) name = true ↔
    (begin .javascript width {}).StaysDeclared before [raw] name
  /-- so it is if a line before declares it outside of all blocks -/
  outermost : (∃ first declaring rest, (begin .javascript width {}).DeclaredBy name before first declaring rest ∧
    ((first ++ [declaring]).foldl Progress.feed (begin .javascript width {})).emitter.depth = 0) →
      (begin .javascript width {}).inScope (before ++ [raw]) name = true

/-- A name that is assigned to without `let` was declared before, and is in scope as long as a block that it was
declared for is open. -/
theorem reassigned_of_reassigns (width : Nat) {source : List Char} {before after : List (List Char)} {raw : List Char}
    (hlines : Text.lines source = before ++ raw :: after) {name : String}
    (h : (before.foldl Progress.feed (begin .javascript width {})).reassigns raw name = true) :
    Reassigned width source before raw name := by
  have htarget (raws : List (List Char)) :
      (raws.foldl Progress.feed (begin .javascript width {})).emitter.target = .javascript :=
    (Progress.extends_foldl (begin .javascript width {}) raws).target
  have hscope := ((begin .javascript width {}).inScope_iff rfl (before ++ [raw]) name).trans
    (Progress.staysDeclared_of_declares (Progress.declares_of_reassigns h) name)
  refine ⟨?_, hscope, ?_⟩
  · obtain ⟨assignment, hassigns, written, hbefore, hout⟩ := Progress.writes_of_reassigns (htarget before) h
    have hdeclared := List.contains_iff_mem.1 (Bool.and_eq_true_iff.1 h).2
    obtain hnone | ⟨first, declaring, rest, rfl, hdeclares⟩ :=
      Progress.mem_declared_foldl (p := begin .javascript width {}) rfl hdeclared
    · cases hnone
    · obtain ⟨declaration, hdeclaration, front, -, hfront⟩ := Progress.writes_of_declares (htarget first) hdeclares
      have hrest :=
        Progress.extends_foldl ((first.foldl Progress.feed (begin .javascript width {})).feed declaring) rest
      obtain ⟨between, hbetween⟩ := hrest.out.trans (by simpa only [List.foldl_append, List.foldl_cons] using hbefore)
      have hsplit : Text.lines source = (first ++ declaring :: rest ++ [raw]) ++ after := by rw [hlines]; simp
      obtain ⟨behind, hcode⟩ := exists_code .javascript width {} hsplit
      refine ⟨front, declaration, between, assignment, behind, ?_, hdeclaration, hassigns⟩
      rw [hcode, List.foldl_append, List.foldl_cons, List.foldl_nil, hout, ← hbetween, hfront]
      simp
  · rintro ⟨first, declaring, rest, ⟨rfl, hdeclares⟩, hdepth⟩
    refine hscope.2 ⟨first, declaring, rest, ⟨rfl, hdeclares⟩, ?_⟩
    rw [hdepth]
    exact Progress.keepsOpen_zero _ _

/-- The name is declared outside of the block that it is assigned to in. -/
theorem reassigned_in_condition :
    Text.lines "x = 1\nIF a THEN\n  x = 2\nEND IF\n".toList =
        ["x = 1".toList, "IF a THEN".toList] ++ "  x = 2".toList :: ["END IF".toList] ∧
      (["x = 1".toList, "IF a THEN".toList].foldl Progress.feed (begin .javascript 4 {})).reassigns
        "  x = 2".toList "x" = true ∧
      Reassigned 4 "x = 1\nIF a THEN\n  x = 2\nEND IF\n".toList ["x = 1".toList, "IF a THEN".toList] "  x = 2".toList
        "x" := by
  have hlines : Text.lines "x = 1\nIF a THEN\n  x = 2\nEND IF\n".toList =
      ["x = 1".toList, "IF a THEN".toList] ++ "  x = 2".toList :: ["END IF".toList] := by
    decide +kernel
  have hreassigns : (["x = 1".toList, "IF a THEN".toList].foldl Progress.feed (begin .javascript 4 {})).reassigns
      "  x = 2".toList "x" = true := by
    decide +kernel
  exact ⟨hlines, hreassigns, reassigned_of_reassigns 4 hlines hreassigns⟩

/-- The block that the name is declared for has ended where it is assigned to. -/
theorem reassigned_behind_condition :
    Text.lines "IF a THEN\n  x = 1\nEND IF\nx = 2\n".toList =
        ["IF a THEN".toList, "  x = 1".toList, "END IF".toList] ++ ["x = 2".toList] ∧
      (["IF a THEN".toList, "  x = 1".toList, "END IF".toList].foldl Progress.feed (begin .javascript 4 {})).reassigns
        "x = 2".toList "x" = true ∧
      (begin .javascript 4 {}).inScope
        (["IF a THEN".toList, "  x = 1".toList, "END IF".toList] ++ ["x = 2".toList]) "x" = false ∧
      (ofSource .javascript 4 {} "IF a THEN\n  x = 1\nEND IF\nx = 2\n".toList).code =
        "if (a) \x7b\n    let x = 1;\n\x7d\nx = 2;\n".toList := by
  decide +kernel

end Generation

end Pseudoscribe
