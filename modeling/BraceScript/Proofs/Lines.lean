import Mathlib.Data.List.TakeWhile
import BraceScript.Proofs.Coverage

/-!
# Lines of a text

A place in a text lies on a physical line: the text between the nearest line feeds before and behind it, without a
carriage return that stands right before the second one (`Source.lineAround`).  `Source.lineAt?_behind` says that the
line with the number of the place is this line, unless nothing is left of the text behind the last line feed.
-/

namespace BraceScript.Source

/-- The text without a carriage return at its end. -/
def chopReturn (cs : List Char) : List Char := if cs.getLast? = some '\r' then cs.dropLast else cs

/-- What stands between the last line feed of the text and its end. -/
def lastLine (cs : List Char) : List Char := (cs.reverse.takeWhile (· ≠ '\n')).reverse

/-- The physical line of `before ++ after` on which the place between the two lies. -/
def lineAround (before after : List Char) : List Char :=
  let line := lastLine before ++ after.takeWhile (· ≠ '\n')
  if '\n' ∈ after then chopReturn line else line

/-! ### Line feeds -/

private theorem not_feed_of_not_mem {cs : List Char} (h : '\n' ∉ cs) : ∀ c ∈ cs, decide (c ≠ '\n') = true :=
  fun _ hc => decide_eq_true fun heq => h (heq ▸ hc)

private theorem takeWhile_append_feed {line : List Char} (h : '\n' ∉ line) (rest : List Char) :
    (line ++ '\n' :: rest).takeWhile (· ≠ '\n') = line := by
  rw [List.takeWhile_append_of_pos (not_feed_of_not_mem h), List.takeWhile_cons_of_neg (by simp), List.append_nil]

private theorem lastLine_of_not_mem {cs : List Char} (h : '\n' ∉ cs) : lastLine cs = cs := by
  rw [lastLine, List.takeWhile_eq_self_iff.2 (not_feed_of_not_mem (by simpa using h)), List.reverse_reverse]

private theorem lastLine_append_feed {line : List Char} (h : '\n' ∉ line) (above : List Char) :
    lastLine (above ++ '\n' :: line) = line := by
  have hreverse : (above ++ '\n' :: line).reverse = line.reverse ++ '\n' :: above.reverse := by simp
  rw [lastLine, hreverse, takeWhile_append_feed (by simpa using h), List.reverse_reverse]

/-- A text is made of complete lines and a last one. -/
theorem exists_above (cs : List Char) :
    ∃ above, cs = above ++ lastLine cs ∧ (above = [] ∨ ∃ front, above = front ++ ['\n']) ∧ '\n' ∉ lastLine cs := by
  by_cases h : '\n' ∈ cs
  · obtain ⟨line, front, hreverse, hline⟩ := List.eq_append_cons_of_mem (List.mem_reverse.2 h)
    have hcs : cs = front.reverse ++ '\n' :: line.reverse := by
      rw [← List.reverse_reverse cs, hreverse]
      simp
    have hlast : lastLine cs = line.reverse := by
      rw [hcs]
      exact lastLine_append_feed (by simpa using hline) _
    refine ⟨front.reverse ++ ['\n'], ?_, .inr ⟨_, rfl⟩, by rw [hlast]; simpa using hline⟩
    rw [hlast, List.append_assoc]
    exact hcs
  · rw [lastLine_of_not_mem h]
    exact ⟨[], rfl, .inl rfl, h⟩

/-! ### Splitting -/

private theorem chopReturn_cons {c : Char} {cs : List Char} (h : c ≠ '\r' ∨ cs ≠ []) :
    chopReturn (c :: cs) = c :: chopReturn cs := by
  unfold chopReturn
  cases cs with
  | nil =>
    have hc : c ≠ '\r' := h.resolve_right (by simp)
    simp [hc]
  | cons d cs =>
    rw [List.getLast?_cons_cons, List.dropLast_cons_cons]
    split <;> rfl

/-- A character that ends no line belongs to the line that goes on behind it. -/
private theorem splitLines_cons {c : Char} {cs l : List Char} {ls : List (List Char)} (hc : c ≠ '\n')
    (h : c ≠ '\r' ∨ cs.head? ≠ some '\n') (hls : splitLines cs = l :: ls) :
    splitLines (c :: cs) = (c :: l) :: ls := by
  have hreturn : ∀ ds, c = '\r' → cs = '\n' :: ds → False := by
    rintro ds rfl rfl
    simp at h
  cases cs with
  | nil => cases hls
  | cons d ds =>
    rw [splitLines]
    · exact hc
    · exact hreturn
    · exact hls

/-- A line ends at a line feed. -/
private theorem splitLines_append_feed {cs : List Char} (h : '\n' ∉ cs) (rest : List Char) :
    splitLines (cs ++ '\n' :: rest) = chopReturn cs :: splitLines rest := by
  induction cs with
  | nil => rfl
  | cons c cs ih =>
    obtain ⟨hc, hcs⟩ : c ≠ '\n' ∧ '\n' ∉ cs := by simpa [eq_comm] using h
    by_cases hreturn : c = '\r' ∧ cs = []
    · obtain ⟨rfl, rfl⟩ := hreturn
      rfl
    · have hother : c ≠ '\r' ∨ cs ≠ [] := by
        by_cases hr : c = '\r'
        · exact .inr fun hnil => hreturn ⟨hr, hnil⟩
        · exact .inl hr
      have hhead : c ≠ '\r' ∨ (cs ++ '\n' :: rest).head? ≠ some '\n' := by
        refine hother.imp id fun hne => ?_
        cases cs with
        | nil => exact absurd rfl hne
        | cons d cs =>
          simp only [List.cons_append, List.head?_cons, ne_eq, Option.some.injEq]
          exact fun hd => hcs (by simp [hd])
      rw [List.cons_append, splitLines_cons hc hhead (ih hcs), chopReturn_cons hother]

/-- The text behind the last line feed is a line, if there is any. -/
private theorem splitLines_of_not_mem {cs : List Char} (h : '\n' ∉ cs) (hne : cs ≠ []) : splitLines cs = [cs] := by
  induction cs with
  | nil => exact absurd rfl hne
  | cons c cs ih =>
    obtain ⟨hc, hcs⟩ : c ≠ '\n' ∧ '\n' ∉ cs := by simpa [eq_comm] using h
    cases cs with
    | nil =>
      rw [splitLines]
      · rfl
      · exact hc
      · simp
      · simp
    | cons d cs =>
      have hhead : (d :: cs).head? ≠ some '\n' := fun hhead => hcs (List.mem_of_mem_head? hhead)
      exact splitLines_cons hc (.inr hhead) (ih hcs (by simp))

/-- Lines that are complete are split off.  By induction on what is left of them, where `line` is the part of the
first one that has been passed. -/
private theorem splitLines_append {line : List Char} (front : List Char) (hline : '\n' ∉ line) (cs : List Char) :
    ∃ ls, splitLines (line ++ (front ++ '\n' :: cs)) = ls ++ splitLines cs ∧ ls.length = front.count '\n' + 1 := by
  induction front generalizing line with
  | nil => exact ⟨[chopReturn line], splitLines_append_feed hline cs, rfl⟩
  | cons c front ih =>
    by_cases hc : c = '\n'
    · obtain ⟨ls, hls, hlength⟩ := ih List.not_mem_nil
      refine ⟨chopReturn line :: ls, ?_, ?_⟩
      · rw [hc, List.cons_append, splitLines_append_feed hline]
        exact congrArg _ hls
      · rw [List.length_cons, hlength, hc, List.count_cons_self]
    · have hlonger : '\n' ∉ line ++ [c] := by simp [hline, Ne.symm hc]
      obtain ⟨ls, hls, hlength⟩ := ih hlonger
      refine ⟨ls, ?_, ?_⟩
      · rw [← hls, List.append_assoc]
        rfl
      · rw [hlength, List.count_cons_of_ne hc]

/-- The first line of a text that begins with a part of a line. -/
private theorem head?_splitLines {line after : List Char} (hline : '\n' ∉ line) (hne : ¬ (line = [] ∧ after = [])) :
    (splitLines (line ++ after)).head? =
      some (if '\n' ∈ after then chopReturn (line ++ after.takeWhile (· ≠ '\n'))
        else line ++ after.takeWhile (· ≠ '\n')) := by
  by_cases hfeed : '\n' ∈ after
  · obtain ⟨right, rest, rfl, hright⟩ := List.eq_append_cons_of_mem hfeed
    rw [if_pos hfeed, takeWhile_append_feed hright, ← List.append_assoc,
      splitLines_append_feed (by simp [hline, hright])]
    rfl
  · rw [if_neg hfeed, List.takeWhile_eq_self_iff.2 (not_feed_of_not_mem hfeed),
      splitLines_of_not_mem (by simp [hline, hfeed]) (by simpa using hne)]
    rfl

/-- The line with the number of a place is the one that the place lies on.  There is none behind a line feed at the
end. -/
theorem lineAt?_behind (before after : List Char) :
    lineAt? (lines (.ofList (before ++ after))) (Position.behind before).line =
      if lastLine before = [] ∧ after = [] then none else some (.ofList (lineAround before after)) := by
  obtain ⟨above, hbefore, habove, hline⟩ := exists_above before
  obtain ⟨ls, hls, hlength⟩ : ∃ ls, splitLines (above ++ (lastLine before ++ after)) =
      ls ++ splitLines (lastLine before ++ after) ∧ ls.length = above.count '\n' := by
    rcases habove with rfl | ⟨front, rfl⟩
    · exact ⟨[], rfl, rfl⟩
    · obtain ⟨ls, hls, hlength⟩ := splitLines_append front List.not_mem_nil (lastLine before ++ after)
      exact ⟨ls, by simpa using hls, by simpa using hlength⟩
  have hsplit : splitLines (before ++ after) = ls ++ splitLines (lastLine before ++ after) := by
    rw [← hls, ← List.append_assoc, ← hbefore]
  have hcount : before.count '\n' = ls.length := by
    rw [hbefore, List.count_append, List.count_eq_zero.2 hline, Nat.add_zero, hlength]
  have hnumber : (Position.behind before).line = ls.length + 1 := by
    rw [← hcount]
    exact Nat.add_comm 1 _
  rw [hnumber, lineAt?, lines, String.toList_ofList, hsplit, List.map_append, List.getElem?_append_right (by simp),
    List.length_map, Nat.sub_self, ← List.head?_eq_getElem?, List.head?_map]
  split
  · rename_i hnone
    rw [hnone.1, hnone.2]
    rfl
  · rename_i hsome
    rw [head?_splitLines hline hsome]
    rfl

end BraceScript.Source
