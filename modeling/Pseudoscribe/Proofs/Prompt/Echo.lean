import Pseudoscribe.Proofs.Cache.Key
import Pseudoscribe.Proofs.Prompt.Fence
import Pseudoscribe.Proofs.Scan.Blanks

/-!
# Echoes of the prompt

Without a block of code, what a model said is read line by line: the lines at its beginning that repeat the prompt are
left out, and the others are put together again.  So every line ends with a newline alone then, and a text of one empty
line comes to nothing; all else stays.  Of a prompt that is repeated as a whole only the first line is left out, because
the line behind it does not look like an echo.
-/

namespace Pseudoscribe

namespace Text

/-! ## Line ends -/

/-- The text with a newline alone at the end of every line. -/
def plainEnds : List Char → List Char
  | '\r' :: '\n' :: cs => '\n' :: plainEnds cs
  | c :: cs => c :: plainEnds cs
  | [] => []

theorem plainEnds_cons {c : Char} {cs : List Char} (h : c = '\r' → cs.head? ≠ some '\n') :
    plainEnds (c :: cs) = c :: plainEnds cs := by
  cases cs with
  | nil => simp [plainEnds]
  | cons d ds =>
    rw [plainEnds]
    rintro _ rfl hd
    exact h rfl (by rw [(List.cons.inj hd).1]; rfl)

/-- A text is its last line, or a line with a newline and the text behind it. -/
theorem line_induction {motive : List Char → Prop} (last : ∀ line, '\n' ∉ line → motive line)
    (next : ∀ line rest, '\n' ∉ line → motive rest → motive (line ++ '\n' :: rest)) (cs : List Char) : motive cs := by
  have hall (front : List Char) (hfront : '\n' ∉ front) : motive (front ++ cs) := by
    induction cs generalizing front with
    | nil => exact last _ (by rwa [List.append_nil])
    | cons c cs ih =>
      by_cases hc : c = '\n'
      · subst hc
        exact next front cs hfront (ih [] List.not_mem_nil)
      · rw [List.append_cons]
        exact ih _ (List.not_mem_append hfront (by simpa using Ne.symm hc))
  exact hall [] List.not_mem_nil

theorem chomp_line (line : List Char) :
    chomp (line ++ ['\n']) = if line.getLast? = some '\r' then line.dropLast else line := by
  rcases List.eq_nil_or_concat line with rfl | ⟨front, c, rfl⟩
  · rfl
  · rw [List.concat_eq_append, List.getLast?_concat, List.dropLast_concat, chomp]
    by_cases hc : c = '\r'
    · subst hc
      simp
    · simp [hc]

theorem plainEnds_line {line : List Char} (h : '\n' ∉ line) : plainEnds line = line := by
  induction line with
  | nil => rfl
  | cons c cs ih =>
    rw [List.mem_cons, not_or] at h
    rw [plainEnds_cons fun _ hd => h.2 (List.mem_of_mem_head? hd), ih h.2]

theorem plainEnds_line_append {line : List Char} (h : '\n' ∉ line) (rest : List Char) :
    plainEnds (line ++ '\n' :: rest) = chomp (line ++ ['\n']) ++ '\n' :: plainEnds rest := by
  rw [chomp_line]
  induction line with
  | nil => exact plainEnds_cons fun h => nomatch h
  | cons c cs ih =>
    rw [List.mem_cons, not_or] at h
    have hbehind := ih h.2
    cases cs with
    | nil =>
      by_cases hc : c = '\r'
      · subst hc
        simp [plainEnds]
      · have hlast : [c].getLast? ≠ some '\r' := by simpa using hc
        rw [List.singleton_append, plainEnds_cons fun heq => absurd heq hc, if_neg hlast]
        exact congrArg (c :: ·) hbehind
    | cons d ds =>
      have hd : d ≠ '\n' := fun heq => h.2 (heq ▸ List.mem_cons_self)
      rw [List.cons_append, plainEnds_cons fun _ hhead => hd (Option.some.inj (by exact hhead)), hbehind,
        List.getLast?_cons_cons, List.dropLast_cons_cons]
      split
      · rfl
      · rfl

theorem plainEnds_append {xs : List Char} (h : Closed xs) (ys : List Char) :
    plainEnds (xs ++ ys) = plainEnds xs ++ plainEnds ys := by
  induction xs using line_induction with
  | last line hline =>
    cases line with
    | nil => rfl
    | cons c cs =>
      obtain ⟨d, hd⟩ := Option.ne_none_iff_exists'.1 (mt List.getLast?_eq_none_iff.1 (List.cons_ne_nil c cs))
      obtain rfl := h d hd
      exact absurd (List.mem_of_getLast? hd) hline
  | next line rest hline ih =>
    have hrest : Closed rest := by
      cases rest with
      | nil => exact closed_nil
      | cons c cs =>
        intro d hd
        exact h d (by rwa [List.getLast?_append_of_ne_nil _ (List.cons_ne_nil _ _), List.getLast?_cons_cons])
    rw [List.append_assoc, List.cons_append, plainEnds_line_append hline, plainEnds_line_append hline, ih hrest,
      List.append_assoc, List.cons_append]

theorem unlines_cons {l : List Char} {ls : List (List Char)} (h : ls ≠ []) :
    unlines (l :: ls) = l ++ '\n' :: unlines ls := by
  obtain ⟨m, ms, rfl⟩ := List.exists_cons_of_ne_nil h
  simp [unlines, joinWith]

theorem lines_ne_nil {cs : List Char} (h : cs ≠ []) : lines cs ≠ [] := by
  intro hlines
  rw [lines, List.map_eq_nil_iff] at hlines
  exact h (by rw [← flatten_pieces cs, hlines, List.flatten_nil])

theorem lines_last {line : List Char} (h : '\n' ∉ line) (hne : line ≠ []) : lines line = [line] := by
  have hchomp : chomp line = line := by
    unfold chomp
    split
    · next hr => exact absurd (List.mem_reverse.1 (hr ▸ List.mem_cons_self)) h
    · next hr => exact absurd (List.mem_reverse.1 (hr ▸ List.mem_cons_self)) h
    · rfl
  have hpieces : pieces line = [line] := by
    clear hchomp
    induction line with
    | nil => exact absurd rfl hne
    | cons c cs ih =>
      rw [List.mem_cons, not_or] at h
      cases cs with
      | nil => simp [pieces, Ne.symm h.1]
      | cons d ds => exact pieces_cons (by simpa using Ne.symm h.1) (ih h.2 (List.cons_ne_nil d ds))
  rw [lines, hpieces, List.map_singleton, hchomp]

/-- The lines of a text, put together again. -/
theorem unlines_lines (cs : List Char) :
    unlines (lines cs) ++ (if cs.getLast? = some '\n' then ['\n'] else []) = plainEnds cs := by
  induction cs using line_induction with
  | last line hline =>
    rw [if_neg fun h => hline (List.mem_of_getLast? h), List.append_nil, plainEnds_line hline]
    by_cases hne : line = []
    · rw [hne]
      rfl
    · rw [lines_last hline hne]
      simp [unlines, joinWith]
  | next line rest hline ih =>
    rw [lines_line_append hline, plainEnds_line_append hline, ← ih]
    by_cases hne : rest = []
    · subst hne
      simp [lines, pieces, unlines, joinWith]
    · obtain ⟨c, cs, rfl⟩ := List.exists_cons_of_ne_nil hne
      rw [unlines_cons (lines_ne_nil hne), List.getLast?_append_of_ne_nil _ (List.cons_ne_nil _ _),
        List.getLast?_cons_cons, List.append_assoc, List.cons_append]

theorem length_plainEnds_tail_le (c : Char) (cs : List Char) :
    (plainEnds cs).length ≤ (plainEnds (c :: cs)).length := by
  by_cases h : c = '\r' → cs.head? ≠ some '\n'
  · rw [plainEnds_cons h, List.length_cons]
    exact Nat.le_succ _
  · obtain ⟨rfl, hhead⟩ : c = '\r' ∧ cs.head? = some '\n' := by simpa using h
    obtain ⟨ds, rfl⟩ := List.head?_eq_some_iff.1 hhead
    rw [@plainEnds_cons '\n' ds fun heq => nomatch heq]
    exact Nat.le_refl _

theorem length_plainEnds_le_of_suffix {xs ys : List Char} (h : xs <:+ ys) :
    (plainEnds xs).length ≤ (plainEnds ys).length := by
  obtain ⟨front, rfl⟩ := h
  induction front with
  | nil => exact Nat.le_refl _
  | cons c cs ih => exact Nat.le_trans ih (length_plainEnds_tail_le c (cs ++ xs))

theorem length_plainEnds_le (cs : List Char) : (plainEnds cs).length ≤ cs.length := by
  fun_induction plainEnds cs with
  | case1 cs ih => simp only [List.length_cons]; omega
  | case2 c cs h ih => simpa using ih
  | case3 => exact Nat.le_refl _

/-- Nothing changes exactly if no line ends with a carriage return and a newline. -/
theorem plainEnds_eq_self_iff {cs : List Char} : plainEnds cs = cs ↔ ¬ ['\r', '\n'] <:+: cs := by
  fun_induction plainEnds cs with
  | case1 cs ih =>
    refine ⟨fun heq => ?_, fun h => absurd (List.prefix_append ['\r', '\n'] cs).isInfix h⟩
    have hlength := congrArg List.length heq
    have hle := length_plainEnds_le cs
    simp only [List.length_cons] at hlength
    omega
  | case2 c cs h ih =>
    have hfirst : ¬ ['\r', '\n'] <+: c :: cs := by
      rintro ⟨rest, hrest⟩
      obtain ⟨rfl, rfl⟩ := List.cons.inj hrest
      exact h rest rfl rfl
    rw [List.cons_eq_cons, eq_self, true_and, ih, List.infix_cons_iff, not_or]
    exact (and_iff_right hfirst).symm
  | case3 => simp

theorem getLast?_plainEnds (cs : List Char) : (plainEnds cs).getLast? = cs.getLast? := by
  fun_induction plainEnds cs with
  | case1 cs ih => rw [List.getLast?_cons, ih, List.getLast?_cons_cons, List.getLast?_cons]
  | case2 c cs _ ih => rw [List.getLast?_cons, List.getLast?_cons, ih]
  | case3 => rfl

theorem mem_plainEnds {c : Char} {cs : List Char} (hc : c ≠ '\r') (h : c ∈ cs) : c ∈ plainEnds cs := by
  fun_induction plainEnds cs with
  | case1 cs ih =>
    rw [List.mem_cons, List.mem_cons] at h
    exact List.mem_cons.2 ((h.resolve_left hc).imp_right ih)
  | case2 d cs hd ih => exact List.mem_cons.2 ((List.mem_cons.1 h).imp_right ih)
  | case3 => exact h

end Text

namespace Prompt

open Text

/-! ## Echo lines -/

/-- The text behind the lines at its beginning that repeat the prompt. -/
def behindEcho (response : List Char) : List Char :=
  ((pieces response).dropWhile fun p => isEcho (chomp p)).flatten

theorem pieces_behindEcho (response : List Char) :
    pieces (behindEcho response) = (pieces response).dropWhile fun p => isEcho (chomp p) :=
  pieces_flatten_of_sublist (by rw [flatten_pieces]) (List.dropWhile_sublist _)

theorem behindEcho_suffix (response : List Char) : behindEcho response <:+ response := by
  obtain ⟨front, hfront⟩ := List.dropWhile_suffix (fun p => isEcho (chomp p)) (l := pieces response)
  exact ⟨front.flatten, by rw [behindEcho, ← List.flatten_append, hfront, flatten_pieces]⟩

theorem behindEcho_line_append {line : List Char} (h : '\n' ∉ line) (rest : List Char) :
    behindEcho (line ++ '\n' :: rest) =
      if isEcho (chomp (line ++ ['\n'])) then behindEcho rest else line ++ '\n' :: rest := by
  rw [behindEcho, List.append_cons, pieces_append (closed_line line), pieces_line h, List.singleton_append,
    List.dropWhile_cons]
  split
  · rfl
  · rw [List.flatten_cons, flatten_pieces]

theorem behindEcho_of_head {response : List Char} (h : ∀ line ∈ (lines response).head?, isEcho line = false) :
    behindEcho response = response := by
  rw [behindEcho]
  cases hpieces : pieces response with
  | nil => rw [← flatten_pieces response, hpieces]; rfl
  | cons p ps =>
    have hp : isEcho (chomp p) = false := h _ (by rw [lines, hpieces]; rfl)
    rw [List.dropWhile_cons_of_neg (by rw [hp]; exact Bool.false_ne_true), ← hpieces, flatten_pieces]

/-- What is left of a text without a block, if it is more than one empty line. -/
def tidy (response : List Char) : List Char :=
  if plainEnds (behindEcho response) = ['\n'] then [] else plainEnds (behindEcho response)

theorem withoutEcho_eq (response : List Char) : withoutEcho response = tidy response := by
  have hlines : (lines response).dropWhile isEcho = lines (behindEcho response) := by
    rw [lines, lines, pieces_behindEcho, List.dropWhile_map]
    rfl
  have hwhole := unlines_lines (behindEcho response)
  have hend := getLast?_plainEnds (behindEcho response)
  unfold withoutEcho tidy
  rw [hlines]
  by_cases hempty : behindEcho response = []
  · rw [hempty]
    simp [lines, pieces, unlines, joinWith, plainEnds]
  · obtain ⟨front, hfront⟩ := behindEcho_suffix response
    have hlast : response.getLast? = (behindEcho response).getLast? := by
      rw [← List.getLast?_append_of_ne_nil front hempty, hfront]
    rw [hlast]
    generalize unlines (lines (behindEcho response)) = code at hwhole ⊢
    by_cases hnewline : (behindEcho response).getLast? = some '\n'
    · rw [if_pos hnewline] at hwhole
      rw [hnewline, ← hwhole]
      cases code <;> simp
    · rw [if_neg hnewline, List.append_nil] at hwhole
      rw [hwhole, if_neg (by simp [hnewline]), if_neg]
      intro heq
      rw [heq] at hend
      exact hnewline hend.symm

/-! ## Texts without a block -/

theorem extract_of_no_block {response : List Char} (h : ¬ HasBlock response) : extract response = tidy response := by
  rw [← isSome_fenced?_iff, Option.not_isSome_iff_eq_none] at h
  rw [extract, h, Option.getD_none, withoutEcho_eq]

theorem length_extract_le {response : List Char} (h : ¬ HasBlock response) :
    (extract response).length ≤ (plainEnds response).length := by
  rw [extract_of_no_block h, tidy]
  split
  · exact Nat.zero_le _
  · exact length_plainEnds_le_of_suffix (behindEcho_suffix response)

/-- A text that does not begin with an echo stays as it is, but for its line ends and for one empty line. -/
theorem extract_eq_self_iff {response : List Char} (h : ¬ HasBlock response)
    (hhead : ∀ line ∈ (lines response).head?, isEcho line = false) :
    extract response = response ↔ ¬ ['\r', '\n'] <:+: response ∧ response ≠ ['\n'] := by
  rw [extract_of_no_block h, tidy, behindEcho_of_head hhead, ← plainEnds_eq_self_iff]
  split
  · next hnewline =>
    refine ⟨?_, fun ⟨hsame, hne⟩ => absurd (hsame.symm.trans hnewline) hne⟩
    rintro rfl
    cases hnewline
  · next hmore =>
    refine ⟨fun hsame => ⟨hsame, ?_⟩, fun hboth => hboth.1⟩
    rintro rfl
    exact hmore rfl

theorem isEcho_eq_false {line : List Char} (hmark : line.head? = some '#') (hbegins : ¬ "# Task:".toList <+: line)
    (hends : ¬ " Code:".toList <:+ line) : isEcho line = false := by
  obtain ⟨rest, rfl⟩ := List.head?_eq_some_iff.1 hmark
  have htrim : trimStart ('#' :: rest) = '#' :: rest := rfl
  rw [← List.isPrefixOf_iff_prefix, Bool.not_eq_true] at hbegins
  rw [← List.isSuffixOf_iff_suffix, Bool.not_eq_true] at hends
  rw [isEcho, ImportLine.beginsWith, htrim, hbegins, endsWith, hends, Bool.and_false, Bool.or_false]

/-- A beginning that is made of whole lines and does not look like an echo all through is left out as far as it does. -/
theorem behindEcho_append {front : List Char} (hclosed : Closed front) {p : List Char} (hp : p ∈ pieces front)
    (hecho : isEcho (chomp p) = false) (response : List Char) :
    behindEcho (front ++ response) = behindEcho front ++ response ∧ p ⊆ behindEcho front := by
  have hmem : p ∈ (pieces front).dropWhile fun p => isEcho (chomp p) := by
    have hsplit : p ∈ (pieces front).takeWhile (fun p => isEcho (chomp p)) ++
        (pieces front).dropWhile fun p => isEcho (chomp p) := by rwa [List.takeWhile_append_dropWhile]
    refine (List.mem_append.1 hsplit).resolve_left fun htaken => ?_
    have htrue := List.all_takeWhile (p := fun p => isEcho (chomp p)) (l := pieces front)
    rw [List.all_eq_true] at htrue
    rw [htrue p htaken] at hecho
    cases hecho
  refine ⟨?_, fun c hc => List.mem_flatten.2 ⟨p, hmem, hc⟩⟩
  have hsome : ((pieces front).dropWhile fun p => isEcho (chomp p)).isEmpty = false := by
    rw [List.isEmpty_eq_false_iff]
    exact List.ne_nil_of_mem hmem
  rw [behindEcho, pieces_append hclosed, List.dropWhile_append, hsome, if_neg Bool.false_ne_true, List.flatten_append,
    flatten_pieces]
  rfl

/-- A beginning without a fence, made of whole lines, makes no difference to blocks. -/
theorem fenced?_append {front : List Char} (hclosed : Closed front) (hfront : ¬ fence <:+: front)
    (response : List Char) : fenced? (front ++ response) = fenced? response := by
  have hcut : cutAt fence (front ++ response) = (cutAt fence response).map fun r => (front ++ r.1, r.2) := by
    cases h : cutAt fence response with
    | none =>
      rw [cutAt_eq_none_iff fence_ne_nil] at h
      rw [Option.map_none, cutAt_eq_none_iff fence_ne_nil, infix_append_iff_of_closed newline_notMem_fence hclosed]
      exact not_or.2 ⟨hfront, h⟩
    | some sides =>
      obtain ⟨before, after⟩ := sides
      obtain ⟨rfl, hfirst⟩ := (cutAt_eq_some_iff fence_ne_nil).1 h
      refine (cutAt_eq_some_iff fence_ne_nil).2 ⟨by simp, ?_⟩
      rw [List.append_assoc, infix_append_iff_of_closed newline_notMem_fence hclosed]
      exact not_or.2 ⟨hfront, hfirst⟩
  unfold fenced?
  rw [hcut]
  cases cutAt fence response with
  | none => rfl
  | some sides => rfl

/-- A block at the beginning is read whatever stands behind it. -/
theorem fenced?_append_of_some {front code : List Char} (h : fenced? front = some code) (response : List Char) :
    fenced? (front ++ response) = some code := by
  have hcut {mark xs before after : List Char} (hmark : mark ≠ []) (hxs : cutAt mark xs = some (before, after)) :
      cutAt mark (xs ++ response) = some (before, after ++ response) := by
    obtain ⟨rfl, hfirst⟩ := (cutAt_eq_some_iff hmark).1 hxs
    exact (cutAt_eq_some_iff hmark).2 ⟨List.append_assoc _ _ _, hfirst⟩
  obtain ⟨before, behind, tag, body, after, hfence, hline, hend⟩ := fenced?_eq_some_iff.1 h
  exact fenced?_eq_some_iff.2 ⟨before, _, tag, _, _, hcut fence_ne_nil hfence, hcut (List.cons_ne_nil _ _) hline,
    hcut fence_ne_nil hend⟩

/-! ## Prompts -/

/-- Neither the source text of the chunk nor its context has a fence. -/
structure Unfenced (chunk : Chunk) : Prop where
  text : ¬ fence <:+: chunk.text.toList
  context : ∀ context ∈ chunk.context, ¬ fence <:+: context.toList

theorem not_fence_of_notMem {line : List Char} (h : '\x60' ∉ line) : ¬ fence <:+: line :=
  fun hfence => h (hfence.subset (by decide))

theorem not_fence_append_cons {xs ys : List Char} {c : Char} (hc : c ∉ fence) (hx : ¬ fence <:+: xs)
    (hy : ¬ fence <:+: ys) : ¬ fence <:+: xs ++ c :: ys :=
  fun h => (infix_append_cons hc h).elim hx hy

theorem infix_of_mem_lines {cs line : List Char} (h : line ∈ lines cs) : line <:+: cs := by
  obtain ⟨piece, hpiece, rfl⟩ := List.mem_map.1 h
  obtain ⟨ends, hends, -⟩ := exists_chomp_append piece
  obtain ⟨before, after, hsplit⟩ := List.append_of_mem hpiece
  refine ⟨before.flatten, ends ++ after.flatten, ?_⟩
  rw [List.append_assoc, ← List.append_assoc _ ends, ← hends, ← List.flatten_cons, ← List.flatten_append, ← hsplit,
    flatten_pieces]

theorem toList_block (ls : List String) : (block ls).toList = (ls.map fun l => l.toList ++ ['\n']).flatten := by
  rw [block, String.toList_join, List.flatMap_map, List.flatMap_def]
  simp

theorem closed_block (ls : List String) : Closed (block ls).toList := by
  rw [toList_block]
  rcases List.eq_nil_or_concat ls with rfl | ⟨front, l, rfl⟩
  · exact closed_nil
  · rw [List.concat_eq_append, List.map_append, List.flatten_append, List.map_singleton, List.flatten_singleton]
    exact closed_append_of_ne_nil (List.append_ne_nil_of_right_ne_nil _ (List.cons_ne_nil _ _)) (closed_line _)

theorem not_fence_block {ls : List String} (h : ∀ l ∈ ls, ¬ fence <:+: l.toList) : ¬ fence <:+: (block ls).toList := by
  rw [toList_block]
  induction ls with
  | nil => decide
  | cons l ls ih =>
    rw [List.map_cons, List.flatten_cons, List.append_assoc]
    exact not_fence_append_cons newline_notMem_fence (h l List.mem_cons_self)
      (ih fun m hm => h m (List.mem_cons_of_mem l hm))

/-- The lines of a prompt behind the first one and before the text of the chunk. -/
def middleLines (chunk : Chunk) : List String := contextLines chunk.context ++ noteLines chunk

theorem toList_ofChunk (chunk : Chunk) (language : Language) : (ofChunk chunk language).toList =
    ((taskLine language).toList ++ '\n' :: (block (middleLines chunk)).toList) ++ ("# Instruction:".toList ++ ['\n']) ++
      (chunk.text.toList ++ (if chunk.text.toList.getLast? = some '\n' then [] else ['\n']) ++
        ((codeLine language).toList ++ ['\n'])) := by
  have hend : (if chunk.text.toList.getLast? == some '\n' then "" else "\n" : String).toList =
      if chunk.text.toList.getLast? = some '\n' then [] else ['\n'] := by
    by_cases h : chunk.text.toList.getLast? = some '\n' <;> simp [h]
  unfold ofChunk middleLines
  simp only [String.toList_append, toList_block, hend]
  simp

theorem closed_ofChunk (chunk : Chunk) (language : Language) : Closed (ofChunk chunk language).toList := by
  have hlast : (codeLine language).toList ++ ['\n'] ≠ [] := List.append_ne_nil_of_right_ne_nil _ (List.cons_ne_nil _ _)
  rw [toList_ofChunk]
  exact closed_append_of_ne_nil (List.append_ne_nil_of_right_ne_nil _ hlast)
    (closed_append_of_ne_nil hlast (closed_line _))

theorem toList_taskLine (language : Language) : (taskLine language).toList =
    "# Task: Convert the following instruction to".toList ++ ' ' ::
      (language.displayName.toList ++ ' ' :: "code".toList) := by
  have hstart : "# Task: Convert the following instruction to ".toList =
      "# Task: Convert the following instruction to".toList ++ [' '] := by simp
  have hline : taskLine language =
      "# Task: Convert the following instruction to " ++ language.displayName ++ " code" := rfl
  rw [hline, String.toList_append, String.toList_append, hstart, List.append_assoc, List.append_assoc]
  rfl

theorem toList_codeLine (language : Language) : (codeLine language).toList =
    ['#'] ++ ' ' :: (language.displayName.toList ++ ' ' :: "Code:".toList) := by
  have hline : codeLine language = "# " ++ language.displayName ++ " Code:" := rfl
  rw [hline, String.toList_append, String.toList_append, List.append_assoc]
  rfl

/-- What a line says that tells how deep a chunk begins. -/
theorem toList_depthLine (depth : Nat) : s!"# Note: this fragment starts {depth} block level(s) deep".toList =
    "# Note: this fragment starts ".toList ++ (Nat.toDigits 10 depth ++ " block level(s) deep".toList) := by
  have hline : s!"# Note: this fragment starts {depth} block level(s) deep" =
      "# Note: this fragment starts " ++ toString depth ++ " block level(s) deep" := rfl
  rw [hline, String.toList_append, String.toList_append, Nat.toString_eq_ofList_toDigits,
    @String.toList_ofList (Nat.toDigits 10 depth), List.append_assoc]

theorem notMem_depthLine {c : Char} (hdigit : c.isDigit = false) (hstart : c ∉ "# Note: this fragment starts ".toList)
    (hend : c ∉ " block level(s) deep".toList) (depth : Nat) :
    c ∉ s!"# Note: this fragment starts {depth} block level(s) deep".toList := by
  rw [toList_depthLine]
  exact List.not_mem_append hstart (List.not_mem_append (notMem_toDigits hdigit depth) hend)

theorem not_fence_middleLines {chunk : Chunk} (h : ∀ context ∈ chunk.context, ¬ fence <:+: context.toList) :
    ∀ l ∈ middleLines chunk, ¬ fence <:+: l.toList := by
  intro l hl
  rcases List.mem_append.1 hl with hl | hl
  · cases hcontext : chunk.context with
    | none =>
      rw [hcontext] at hl
      cases hl
    | some context =>
      rw [hcontext] at hl
      rcases List.mem_cons.1 hl with rfl | hl
      · exact not_fence_of_notMem (by simp)
      · obtain ⟨line, hline, rfl⟩ := List.mem_map.1 hl
        have hnone : ¬ fence <:+: line := fun hfence => h context hcontext (hfence.trans (infix_of_mem_lines hline))
        have hsplit : ("#   " ++ String.ofList line).toList = "#  ".toList ++ ' ' :: line := by simp
        rw [hsplit]
        exact not_fence_append_cons (by decide) (not_fence_of_notMem (by decide)) hnone
  · refine not_fence_of_notMem ?_
    rcases List.mem_append.1 hl with hl | hl
    · split at hl
      · obtain rfl := List.mem_singleton.1 hl
        exact notMem_depthLine (by decide) (by simp) (by simp) _
      · cases hl
    · split at hl
      · obtain rfl := List.mem_singleton.1 hl
        simp
      · cases hl

theorem closed_firstLines (chunk : Chunk) (language : Language) :
    Closed ((taskLine language).toList ++ '\n' :: (block (middleLines chunk)).toList) := by
  rw [List.append_cons]
  by_cases h : (block (middleLines chunk)).toList = []
  · rw [h, List.append_nil]
    exact closed_line _
  · exact closed_append_of_ne_nil h (closed_block _)

theorem not_fence_ofChunk {chunk : Chunk} {language : Language} (h : Unfenced chunk)
    (hname : ¬ fence <:+: language.displayName.toList) : ¬ fence <:+: (ofChunk chunk language).toList := by
  have hblank : ' ' ∉ fence := by decide
  have htask : ¬ fence <:+: (taskLine language).toList := by
    rw [toList_taskLine]
    exact not_fence_append_cons hblank (not_fence_of_notMem (by simp))
      (not_fence_append_cons hblank hname (not_fence_of_notMem (by simp)))
  have hcode : ¬ fence <:+: (codeLine language).toList := by
    rw [toList_codeLine]
    exact not_fence_append_cons hblank (not_fence_of_notMem (by decide))
      (not_fence_append_cons hblank hname (not_fence_of_notMem (by simp)))
  have hinstruction : ¬ fence <:+: "# Instruction:".toList ++ ['\n'] := not_fence_of_notMem (by simp)
  have hnil : ¬ fence <:+: [] := by decide
  have hfirst := not_fence_append_cons newline_notMem_fence htask (not_fence_block (not_fence_middleLines h.context))
  have hlast := not_fence_append_cons newline_notMem_fence hcode hnil
  have hclosed := closed_firstLines chunk language
  rw [toList_ofChunk, infix_append_iff_of_closed newline_notMem_fence
    (closed_append_of_ne_nil (List.append_ne_nil_of_right_ne_nil _ (List.cons_ne_nil _ _)) (closed_line _)),
    infix_append_iff_of_closed newline_notMem_fence hclosed, not_or, not_or]
  refine ⟨⟨hfirst, hinstruction⟩, ?_⟩
  -- the text of the chunk is closed with a newline if it does not end with one
  by_cases hend : chunk.text.toList.getLast? = some '\n'
  · have htext : Closed chunk.text.toList := fun c hc => (Option.some.inj (hend.symm.trans hc)).symm
    rw [if_pos hend, List.append_nil, infix_append_iff_of_closed newline_notMem_fence htext, not_or]
    exact ⟨h.text, hlast⟩
  · rw [if_neg hend, infix_append_iff_of_closed newline_notMem_fence (closed_line _), not_or]
    exact ⟨not_fence_append_cons newline_notMem_fence h.text hnil, hlast⟩

theorem hasBlock_append_iff {chunk : Chunk} {language : Language} (h : Unfenced chunk)
    (hname : ¬ fence <:+: language.displayName.toList) (response : List Char) :
    HasBlock ((ofChunk chunk language).toList ++ response) ↔ HasBlock response := by
  rw [← isSome_fenced?_iff, ← isSome_fenced?_iff, fenced?_append (closed_ofChunk chunk language) (not_fence_ofChunk h hname)]

/-- The line before the source text is no echo, so that the echo ends there at the latest. -/
theorem behindEcho_ofChunk_append (chunk : Chunk) (language : Language) (response : List Char) :
    behindEcho ((ofChunk chunk language).toList ++ response) =
      behindEcho (ofChunk chunk language).toList ++ response ∧ '#' ∈ behindEcho (ofChunk chunk language).toList := by
  have hline : "# Instruction:".toList ++ ['\n'] ∈ pieces (ofChunk chunk language).toList := by
    rw [toList_ofChunk, List.append_assoc, pieces_append (closed_firstLines chunk language),
      pieces_append (closed_line _), pieces_line (by simp)]
    exact List.mem_append_right _ (List.mem_append_left _ List.mem_cons_self)
  have hecho : isEcho (chomp ("# Instruction:".toList ++ ['\n'])) = false := by
    rw [chomp_line, if_neg (by simp)]
    exact isEcho_eq_false (by simp) (by simp) (by simp [← List.reverse_prefix])
  obtain ⟨hwhole, hsubset⟩ := behindEcho_append (closed_ofChunk chunk language) hline hecho response
  exact ⟨hwhole, hsubset (by simp)⟩

/-- What is left of a prompt with an answer behind it that has no block. -/
theorem extract_ofChunk_append {chunk : Chunk} {language : Language} (h : Unfenced chunk)
    (hname : ¬ fence <:+: language.displayName.toList) {response : List Char} (hblock : ¬ HasBlock response) :
    extract ((ofChunk chunk language).toList ++ response) =
      plainEnds (behindEcho (ofChunk chunk language).toList) ++ plainEnds response := by
  obtain ⟨hbehind, hmem⟩ := behindEcho_ofChunk_append chunk language response
  have hclosed : Closed (behindEcho (ofChunk chunk language).toList) := by
    intro c hc
    obtain ⟨front, hfront⟩ := behindEcho_suffix (ofChunk chunk language).toList
    refine closed_ofChunk chunk language c ?_
    rwa [← hfront, List.getLast?_append_of_ne_nil front (List.ne_nil_of_mem hmem)]
  rw [extract_of_no_block (mt (hasBlock_append_iff h hname response).1 hblock), tidy, hbehind, plainEnds_append hclosed,
    if_neg]
  intro hnewline
  have hmark := mem_plainEnds (by decide) hmem
  have hall := hnewline ▸ List.mem_append_left (plainEnds response) hmark
  exact absurd hall (by decide)

theorem extract_ofChunk_append_ne {chunk : Chunk} {language : Language} (h : Unfenced chunk)
    (hname : ¬ fence <:+: language.displayName.toList) {response : List Char} (hblock : ¬ HasBlock response) :
    extract ((ofChunk chunk language).toList ++ response) ≠ extract response := by
  intro heq
  have hlength := congrArg List.length ((extract_ofChunk_append h hname hblock).symm.trans heq)
  have hle := length_extract_le hblock
  have hpos := List.length_pos_of_mem (mem_plainEnds (by decide) (behindEcho_ofChunk_append chunk language []).2)
  rw [List.length_append] at hlength
  omega

theorem extract_ofChunk_append_of_block {chunk : Chunk} {language : Language} (h : Unfenced chunk)
    (hname : ¬ fence <:+: language.displayName.toList) {response : List Char} (hblock : HasBlock response) :
    extract ((ofChunk chunk language).toList ++ response) = extract response := by
  obtain ⟨code, hcode⟩ := Option.isSome_iff_exists.1 (isSome_fenced?_iff.2 hblock)
  rw [extract, extract, fenced?_append (closed_ofChunk chunk language) (not_fence_ofChunk h hname), hcode,
    Option.getD_some, Option.getD_some]

/-- A fence in the name of the language stands on two lines of the prompt, so that the lines between them are a
block. -/
theorem extract_ofChunk_append_of_fence {language : Language} (hname : fence <:+: language.displayName.toList)
    (chunk : Chunk) (response : List Char) :
    extract ((ofChunk chunk language).toList ++ response) = extract (ofChunk chunk language).toList := by
  obtain ⟨before, after, hsplit⟩ := hname
  have hblock : HasBlock (ofChunk chunk language).toList := by
    refine ⟨"# Task: Convert the following instruction to".toList ++ ' ' :: before, after ++ ' ' :: "code".toList,
      (block (middleLines chunk)).toList ++ ("# Instruction:".toList ++ ['\n']) ++
        (chunk.text.toList ++ (if chunk.text.toList.getLast? = some '\n' then [] else ['\n']) ++
          (['#'] ++ ' ' :: before)), after ++ ' ' :: "Code:".toList ++ ['\n'], ?_⟩
    rw [toList_ofChunk, toList_taskLine, toList_codeLine, ← hsplit]
    simp only [List.append_assoc, List.cons_append]
  rw [← isSome_fenced?_iff, Option.isSome_iff_exists] at hblock
  obtain ⟨code, hcode⟩ := hblock
  rw [extract, extract, fenced?_append_of_some hcode, hcode, Option.getD_some, Option.getD_some]

/-! ## The first line of a prompt -/

theorem isEcho_taskLine (language : Language) : isEcho (taskLine language).toList = true := by
  have hstart : (taskLine language).toList = "# Task:".toList ++
      (" Convert the following instruction to".toList ++ ' ' :: (language.displayName.toList ++ ' ' :: "code".toList)) := by
    rw [toList_taskLine]
    rfl
  have hbegins : "# Task:".toList.isPrefixOf (trimStart (taskLine language).toList) = true := by
    rw [hstart]
    exact List.isPrefixOf_iff_prefix.2 (List.prefix_append _ _)
  rw [isEcho, ImportLine.beginsWith, hbegins, Bool.true_or]

theorem isEcho_depthLine (depth : Nat) :
    isEcho s!"# Note: this fragment starts {depth} block level(s) deep".toList = false := by
  rw [toList_depthLine]
  exact isEcho_eq_false (by simp) (by simp) (by simp [← List.reverse_prefix])

/-- The line behind the first one of a prompt is no echo, whichever it is. -/
theorem exists_secondLine (chunk : Chunk) : ∃ line rest, middleLines chunk ++ ["# Instruction:"] = line :: rest ∧
    isEcho line.toList = false ∧ '\n' ∉ line.toList ∧ '\r' ∉ line.toList := by
  unfold middleLines noteLines
  cases chunk.context with
  | some context =>
    exact ⟨_, _, rfl, isEcho_eq_false (by simp) (by simp) (by simp [← List.reverse_prefix]), by simp, by simp⟩
  | none =>
    by_cases hdepth : 0 < chunk.depth
    · refine ⟨s!"# Note: this fragment starts {chunk.depth} block level(s) deep", _, by rw [if_pos hdepth]; rfl,
        isEcho_depthLine chunk.depth, ?_, ?_⟩
      · exact notMem_depthLine (by decide) (by simp) (by simp) chunk.depth
      · exact notMem_depthLine (by decide) (by simp) (by simp) chunk.depth
    · rw [if_neg hdepth]
      cases chunk.continues with
      | true =>
        exact ⟨_, _, rfl, isEcho_eq_false (by simp) (by simp) (by simp [← List.reverse_prefix]), by simp, by simp⟩
      | false =>
        exact ⟨_, _, rfl, isEcho_eq_false (by simp) (by simp) (by simp [← List.reverse_prefix]), by simp, by simp⟩

/-- Only the first line of a prompt counts as an echo. -/
theorem taskLine_append_behindEcho (chunk : Chunk) {language : Language}
    (hname : '\n' ∉ language.displayName.toList) :
    (ofChunk chunk language).toList =
      (taskLine language).toList ++ '\n' :: behindEcho (ofChunk chunk language).toList := by
  obtain ⟨line, rest, hlines, hecho, hline, hreturn⟩ := exists_secondLine chunk
  have htask : '\n' ∉ (taskLine language).toList := by
    rw [toList_taskLine]
    exact List.not_mem_append (by simp) (List.not_mem_cons_of_ne_of_not_mem (by decide)
      (List.not_mem_append hname (by simp)))
  have hend : (taskLine language).toList.getLast? ≠ some '\r' := by
    rw [toList_taskLine, List.append_cons, ← List.append_assoc, List.getLast?_append_of_ne_nil _ (List.cons_ne_nil _ _)]
    simp
  have hmiddle : (block (middleLines chunk)).toList ++ ("# Instruction:".toList ++ ['\n']) =
      line.toList ++ '\n' :: (block rest).toList := by
    have hall := congrArg (fun ls => (block ls).toList) hlines
    simpa [toList_block] using hall
  have hwhole := toList_ofChunk chunk language
  rw [List.append_assoc (taskLine language).toList, List.cons_append, hmiddle, List.append_assoc,
    List.cons_append, List.append_assoc, List.cons_append] at hwhole
  rw [hwhole, behindEcho_line_append htask, chomp_line, if_neg hend, if_pos (isEcho_taskLine language),
    behindEcho_line_append hline, chomp_line, if_neg fun h => hreturn (List.mem_of_getLast? h), hecho,
    if_neg Bool.false_ne_true]

/-! ## What is left out -/

/-- Of a text without a block the lines at its beginning that look like an echo are left out, and nothing else but
carriage returns before newlines and a lone empty line.  Behind a prompt a block is read as it is without the prompt;
what has no block keeps all of the prompt but its first line.  A language whose name has a fence makes a block of the
prompt itself. -/
theorem extract_echo (chunk : Chunk) (language : Language) (response : List Char) :
    (¬ HasBlock response → extract response = tidy response ∧
      ((∀ line ∈ (lines response).head?, isEcho line = false) →
        (extract response = response ↔ ¬ ['\r', '\n'] <:+: response ∧ response ≠ ['\n']))) ∧
    (Unfenced chunk →
      (fence <:+: language.displayName.toList →
        extract ((ofChunk chunk language).toList ++ response) = extract (ofChunk chunk language).toList) ∧
      (¬ fence <:+: language.displayName.toList →
        (extract ((ofChunk chunk language).toList ++ response) = extract response ↔ HasBlock response) ∧
        (¬ HasBlock response → extract ((ofChunk chunk language).toList ++ response) =
          plainEnds (behindEcho (ofChunk chunk language).toList) ++ plainEnds response) ∧
        ('\n' ∉ language.displayName.toList → (ofChunk chunk language).toList =
          (taskLine language).toList ++ '\n' :: behindEcho (ofChunk chunk language).toList))) := by
  refine ⟨fun hblock => ⟨extract_of_no_block hblock, extract_eq_self_iff hblock⟩, fun hchunk => ⟨fun hname => ?_,
    fun hname => ⟨⟨fun hsame => ?_, extract_ofChunk_append_of_block hchunk hname⟩,
      extract_ofChunk_append hchunk hname, taskLine_append_behindEcho chunk⟩⟩⟩
  · exact extract_ofChunk_append_of_fence hname chunk response
  · by_contra hblock
    exact extract_ofChunk_append_ne hchunk hname hblock hsame

/-! ### A line that is printed -/

/-- A chunk of one line. -/
def printOne : Chunk := { text := "PRINT 1\n" }

theorem unfenced_printOne : Unfenced printOne := ⟨by decide +kernel, fun _ h => nomatch h⟩

/-- A comment line and the source text stand before the code.  For a language of three back quotes they are the code. -/
theorem extract_echo_of_print :
    ¬ HasBlock "x = 1\n".toList ∧ (∀ line ∈ (lines "x = 1\n".toList).head?, isEcho line = false) ∧
    extract "x = 1\n".toList = "x = 1\n".toList ∧
    Unfenced printOne ∧ ¬ fence <:+: Language.python.displayName.toList ∧ '\n' ∉ Language.python.displayName.toList ∧
    (ofChunk printOne .python).toList =
      (taskLine .python).toList ++ '\n' :: behindEcho (ofChunk printOne .python).toList ∧
    extract ((ofChunk printOne .python).toList ++ "x = 1\n".toList) =
      "# Instruction:\nPRINT 1\n# Python Code:\nx = 1\n".toList ∧
    fence <:+: (Language.mk "\x60\x60\x60").displayName.toList ∧
    extract ((ofChunk printOne ⟨"\x60\x60\x60"⟩).toList ++ "x = 1\n".toList) =
      "# Instruction:\nPRINT 1\n# ".toList := by
  have hblock : ¬ HasBlock "x = 1\n".toList := mt isSome_fenced?_iff.2 (by decide +kernel)
  have hhead : ∀ line ∈ (lines "x = 1\n".toList).head?, isEcho line = false := by decide +kernel
  have hsame : ¬ ['\r', '\n'] <:+: "x = 1\n".toList ∧ "x = 1\n".toList ≠ ['\n'] := by decide +kernel
  have hname : ¬ fence <:+: Language.python.displayName.toList ∧ '\n' ∉ Language.python.displayName.toList := by
    decide +kernel
  have hquotes : fence <:+: (Language.mk "\x60\x60\x60").displayName.toList := by decide +kernel
  obtain ⟨hplain, hprompt⟩ := extract_echo printOne .python "x = 1\n".toList
  obtain ⟨-, hkept, hbehind⟩ := (hprompt unfenced_printOne).2 hname.1
  have hmarked := ((extract_echo printOne ⟨"\x60\x60\x60"⟩ "x = 1\n".toList).2 unfenced_printOne).1 hquotes
  refine ⟨hblock, hhead, ((hplain hblock).2 hhead).2 hsame, unfenced_printOne, hname.1, hname.2, hbehind hname.2, ?_,
    hquotes, ?_⟩
  · rw [hkept hblock]
    decide +kernel
  · rw [hmarked]
    decide +kernel

/-- Neither is a repeated prompt left out nor does every answer stay as it is. -/
theorem extract_keeps_prompt :
    ¬ ((∀ response, ¬ fence <:+: response → (∀ line ∈ (lines response).head?, isEcho line = false) →
        extract response = response) ∧
      ∀ (chunk : Chunk) (language : Language) (response : List Char), Unfenced chunk →
        extract ((ofChunk chunk language).toList ++ response) = extract response) ∧
    extract ((ofChunk printOne .python).toList ++ "x = 1\n".toList) ≠ extract "x = 1\n".toList ∧
    extract "x = 1\r\n".toList ≠ "x = 1\r\n".toList := by
  have hprompt : extract ((ofChunk printOne .python).toList ++ "x = 1\n".toList) ≠ extract "x = 1\n".toList := by
    decide +kernel
  exact ⟨fun h => hprompt (h.2 _ _ _ unfenced_printOne), hprompt, by decide +kernel⟩

end Prompt

end Pseudoscribe
