/-
# Carets stand under the token that is meant

Two parts of the program have to agree for this. The scanner counts columns while it reads, four
for a tab and one for any other character. The excerpt takes the line out of the source again,
expands its tabs, takes its indentation away and measures its end in bytes.

They agree for every token that begins and ends on one line. The column of a place is the width of
what stands in front of it on its line, a line has at least as many bytes as columns, and a token
starts behind the indentation of its line because it starts with no blank.
-/

import Mathlib.Data.List.Induction
import Shanty.Proofs.Token.Stretches
import Shanty.Report.Excerpt

namespace Shanty

open Token.Lexer

deriving instance DecidableEq for Scan

namespace Excerpt

/-! ## Lines and columns of a place -/

/-- What stands in front of the first line end of a text. -/
def firstLine (text : List Char) : List Char := text.takeWhile (· ≠ '\n')

/-- What stands behind the last line end of a text. -/
def lastLine (text : List Char) : List Char := (text.reverse.takeWhile (· ≠ '\n')).reverse

theorem firstLine_cons (c : Char) (text : List Char) :
    firstLine (c :: text) = if c = '\n' then [] else c :: firstLine text := by
  by_cases hnewline : c = '\n' <;> simp [firstLine, hnewline]

theorem lastLine_concat (text : List Char) (c : Char) :
    lastLine (text ++ [c]) = if c = '\n' then [] else lastLine text ++ [c] := by
  by_cases hnewline : c = '\n' <;> simp [lastLine, hnewline]

theorem lastLine_append (before : List Char) {text : List Char} (hline : '\n' ∉ text) :
    lastLine (before ++ text) = lastLine before ++ text := by
  induction text using List.reverseRecOn with
  | nil => simp
  | append_singleton text c ih =>
      rw [List.mem_append, not_or, List.mem_singleton] at hline
      rw [← List.append_assoc, lastLine_concat, if_neg (Ne.symm hline.2), ih hline.1,
        List.append_assoc]

theorem expandTabs_append (first second : List Char) :
    expandTabs (first ++ second) = expandTabs first ++ expandTabs second :=
  List.flatMap_append

theorem expandTabs_ne_nil {text : List Char} (hne : text ≠ []) : expandTabs text ≠ [] := by
  obtain ⟨c, more, rfl⟩ := List.exists_cons_of_ne_nil hne
  by_cases htab : c = '\t' <;> simp [expandTabs, htab, tabWidth]

theorem splitLines_eq (text : List Char) :
    splitLines text = firstLine text :: (splitLines text).tail := by
  induction text with
  | nil => rfl
  | cons c text ih =>
      rw [firstLine_cons, splitLines, ih]
      by_cases hnewline : c = '\n' <;> simp [hnewline]

theorem splitLines_newline (text : List Char) :
    splitLines ('\n' :: text) = [] :: splitLines text := by
  rw [splitLines, splitLines_eq text]
  rfl

/-- The lines of a text from the one on in which its front ends. -/
theorem drop_splitLines (before rest : List Char) :
    (splitLines (before ++ rest)).drop (before.count '\n') =
      (lastLine before ++ firstLine rest) :: (splitLines rest).tail := by
  induction before using List.reverseRecOn generalizing rest with
  | nil => exact splitLines_eq rest
  | append_singleton before c ih =>
      have hbefore := ih (c :: rest)
      rw [firstLine_cons] at hbefore
      rw [List.append_assoc, List.singleton_append, lastLine_concat, List.count_append]
      by_cases hnewline : c = '\n'
      · subst hnewline
        rw [splitLines_newline, List.tail_cons] at hbefore
        rw [List.count_singleton_self, ← List.drop_drop, hbefore, List.drop_one, List.tail_cons,
          if_pos rfl, List.nil_append]
        exact splitLines_eq rest
      · have htail : (splitLines (c :: rest)).tail = (splitLines rest).tail := by
          rw [splitLines, splitLines_eq rest]
          simp [hnewline]
        rw [List.count_singleton]
        simpa [hnewline, htail] using hbefore

/-- The line of a place is counted by line ends, its column by the width of what stands in front
of it on its line. -/
theorem advance_origin (before : List Char) :
    Position.origin.advance before =
      ⟨before.count '\n', (expandTabs (lastLine before)).length⟩ := by
  induction before using List.reverseRecOn with
  | nil => rfl
  | append_singleton before c ih =>
      rw [Position.advance_append, ih, lastLine_concat, List.count_append, Position.advance_cons,
        Position.advance_nil, Position.step]
      by_cases hnewline : c = '\n'
      · simp [hnewline, expandTabs]
      · by_cases htab : c = '\t' <;>
          simp [hnewline, htab, expandTabs]

/-! ## A line as it is shown -/

/-- Nothing up to a character that is no carriage return is cut off. -/
theorem trimReturns_append_cons (front : List Char) {c : Char} (hreturn : c ≠ '\r')
    (rest : List Char) :
    trimReturns (front ++ c :: rest) = front ++ c :: trimReturns rest := by
  have hkeep : (front ++ [c]).reverse.dropWhile (· = '\r') = (front ++ [c]).reverse := by
    simp [hreturn]
  rw [List.append_cons, List.append_cons front c (trimReturns rest)]
  unfold trimReturns
  rw [List.reverse_append, List.dropWhile_append, hkeep]
  split
  next hempty => rw [List.isEmpty_iff.1 hempty, List.reverse_reverse, List.reverse_nil,
    List.append_nil]
  next => rw [List.reverse_append, List.reverse_reverse]

/-- What stands in front of a stretch without carriage returns is shown as it is, and so is the
stretch. -/
theorem shownLine_append (front : List Char) {text : List Char} (hne : text ≠ [])
    (hreturn : '\r' ∉ text) (rest : List Char) :
    shownLine (front ++ (text ++ rest)) =
      expandTabs front ++ (expandTabs text ++ shownLine rest) := by
  obtain ⟨more, c, rfl⟩ := (List.eq_nil_or_concat text).resolve_left hne
  have hc : c ≠ '\r' := by
    rintro rfl
    exact hreturn (by simp)
  have htrim := trimReturns_append_cons (front ++ more) hc rest
  simp only [shownLine, List.concat_eq_append, List.append_assoc, List.singleton_append] at htrim ⊢
  rw [htrim, expandTabs_append, expandTabs_append, ← List.singleton_append, expandTabs_append,
    expandTabs_append, List.append_assoc]

theorem indent_append_cons_le (front : List Char) {c : Char} (hspace : c ≠ ' ')
    (rest : List Char) : indent (front ++ c :: rest) ≤ front.length := by
  induction front with
  | nil => simp [indent, hspace]
  | cons d front ih =>
      by_cases hd : d = ' '
      · simpa [indent, hd] using ih
      · simp [indent, hd]

theorem length_le_byteLength (line : List Char) : line.length ≤ byteLength line := by
  induction line with
  | nil => exact Nat.le_refl 0
  | cons c line ih =>
      have hpos := c.utf8Size_pos
      rw [List.length_cons]
      show line.length + 1 ≤ c.utf8Size + byteLength line
      omega

/-! ## The rows of a token -/

/-- A line behind its number, and below it a caret under each character of a stretch. -/
def underlined (number : String) (width : Nat) (left marked right : List Char) : List Char :=
  padded number width ++ " | ".toList ++ (left ++ (marked ++ right)) ++ ['\n'] ++
    List.replicate width ' ' ++ " | ".toList ++ left.map (fun _ => ' ') ++
    marked.map (fun _ => '^') ++ ['\n']

/-- Carets from the column where a stretch starts up to the one where it ends stand under it, as
long as none of it belongs to the indentation. -/
theorem rows_eq_underlined (number : String) (width : Nat) {shared : Nat}
    {front marked : List Char} (right : List Char) (hshared : shared ≤ front.length)
    (hmarked : marked ≠ []) :
    rows number width shared (front ++ (marked ++ right)) front.length
        (min (front.length + marked.length : Nat) (byteLength (front ++ (marked ++ right)))) =
      underlined number width (front.drop shared) marked right := by
  have hpos := List.length_pos_iff.2 hmarked
  have hbytes := length_le_byteLength (front ++ (marked ++ right))
  rw [List.length_append, List.length_append] at hbytes
  have hcarets : carets front.length
      (min ((front.length + marked.length : Nat) : Int) (byteLength (front ++ (marked ++ right))))
      shared = (front.length - shared, marked.length) := by
    unfold carets
    rw [Prod.mk.injEq]
    constructor <;> omega
  simp only [rows, underlined, hcarets, List.drop_append_of_le_length hshared, List.map_const',
    List.length_drop]

/-- The excerpt that shows one line shows it without its indentation. -/
theorem ofSpan_of_line {source : List Char} {span : Span} {number : Nat} {line : List Char}
    (hstart : span.start.line = number) (hstop : span.stop.line = number)
    (hline : (splitLines source)[number]? = some line) :
    ofSpan source span = .ok (rows (toString (span.start.line + 1))
      (toString (Position.oneBased span.stop.line)).length (indent (shownLine line))
      (shownLine line) span.start.col (min span.stop.col (byteLength (shownLine line)))) := by
  have htouched : touched source span = .ok [shownLine line] := by
    obtain ⟨hlt, rfl⟩ := List.getElem?_eq_some_iff.1 hline
    have hinside : ¬ (number : Int) < 0 := by omega
    have hone : ((number : Int) - number + 1).toNat = 1 := by omega
    simp only [touched, hstart, hstop, hinside, decide_false, Bool.false_and, Bool.false_eq_true,
      if_false, Int.toNat_natCast, hone, List.drop_eq_getElem_cons hlt, List.take_succ_cons,
      List.take_zero, List.map_cons, List.map_nil]
  rw [ofSpan, htouched]
  rfl

/-- Every token of a source text that begins and ends on one line and has no carriage return in it
is shown with its line, tabs expanded and indentation taken away, and with carets under its
characters and nowhere else. -/
theorem ofSpan_of_token {source : List Char} {patient : Bool} {token : Token}
    (hmem : .token token ∈ Scanner.scanAll patient { rest := source })
    (hextent : token.span.start ≠ token.span.stop)
    (honeLine : token.span.start.line = token.span.stop.line) :
    ∃ before text after, token.span.Covers source before text after ∧
      ('\r' ∉ text → ∃ line left right,
        (splitLines source)[token.span.start.line.toNat]? = some line ∧
        line = lastLine before ++ (text ++ firstLine after) ∧
        left = (expandTabs (lastLine before)).drop (indent (shownLine line)) ∧
        (shownLine line).drop (indent (shownLine line)) = left ++ (expandTabs text ++ right) ∧
        ofSpan source token.span =
          .ok (underlined (toString (token.span.start.line + 1))
            (toString (Position.oneBased token.span.stop.line)).length
            left (expandTabs text) right)) := by
  obtain ⟨before, text, after, hcovers, hblank⟩ := Scanner.points_of_mem_scanAll hmem token rfl
  refine ⟨before, text, after, hcovers, fun hreturn => ?_⟩
  obtain ⟨hwhole, hstart, hstop⟩ := hcovers
  have hne : text ≠ [] := by
    rintro rfl
    rw [List.append_nil] at hstop
    exact hextent (hstart.trans hstop.symm)
  have hnewline : '\n' ∉ text := by
    rw [hstart, hstop, advance_origin, advance_origin, List.count_append] at honeLine
    simp only at honeLine
    exact List.count_eq_zero.1 (by omega)
  have hline : (splitLines source)[before.count '\n']? =
      some (lastLine before ++ (text ++ firstLine after)) := by
    have hfirst : firstLine (text ++ after) = text ++ firstLine after :=
      List.takeWhile_append_of_pos fun c hc => by
        simpa using ne_of_mem_of_not_mem hc hnewline
    rw [← List.head?_drop, hwhole, drop_splitLines, hfirst]
    rfl
  have hshown := shownLine_append (lastLine before) hne hreturn (firstLine after)
  have hindent : indent (shownLine (lastLine before ++ (text ++ firstLine after))) ≤
      (expandTabs (lastLine before)).length := by
    obtain ⟨c, more, rfl⟩ := List.exists_cons_of_ne_nil hne
    have hc := hblank c rfl
    have hspace : c ≠ ' ' := by
      rintro rfl
      cases hc
    have htab : c ≠ '\t' := by
      rintro rfl
      cases hc
    have hexpand : expandTabs (c :: more) = c :: expandTabs more := by
      simp [expandTabs, htab]
    rw [hshown, hexpand]
    exact indent_append_cons_le _ hspace _
  have hcolumns : token.span.start.col = (expandTabs (lastLine before)).length ∧
      token.span.stop.col =
        ((expandTabs (lastLine before)).length + (expandTabs text).length : Nat) := by
    rw [hstart, hstop, advance_origin, advance_origin, lastLine_append before hnewline,
      expandTabs_append, List.length_append]
    exact ⟨rfl, rfl⟩
  have hnumber : token.span.start.line = before.count '\n' := by rw [hstart, advance_origin]
  refine ⟨_, _, shownLine (firstLine after), ?_, rfl, rfl, ?_, ?_⟩
  · rw [hnumber]
    exact hline
  · rw [hshown, List.drop_append_of_le_length (hshown ▸ hindent)]
  · rw [ofSpan_of_line hnumber (honeLine.symm.trans hnumber) hline, hcolumns.1, hcolumns.2]
    rw [hshown] at hindent ⊢
    exact congrArg Except.ok (rows_eq_underlined _ _ _ hindent (expandTabs_ne_nil hne))

/-- A string with a tab in it, which stands behind a tab and a letter of two bytes and in front of
a carriage return. -/
def tabbedText : List Char := "int é;\n\té = \"\t\"\r\n".toList

/-- The string of this text. -/
def tabbedToken : Token := ⟨.stringLiteral, "\"\t\"", ⟨⟨1, 8⟩, ⟨1, 14⟩⟩, false⟩

theorem ofSpan_of_token_tabbed :
    ofSpan tabbedText tabbedToken.span =
        .ok "2 | é = \"    \"\n  |     ^^^^^^\n".toList ∧
      ∃ before text after, tabbedToken.span.Covers tabbedText before text after ∧
        ('\r' ∉ text → ∃ line left right,
          (splitLines tabbedText)[tabbedToken.span.start.line.toNat]? = some line ∧
          line = lastLine before ++ (text ++ firstLine after) ∧
          left = (expandTabs (lastLine before)).drop (indent (shownLine line)) ∧
          (shownLine line).drop (indent (shownLine line)) = left ++ (expandTabs text ++ right) ∧
          ofSpan tabbedText tabbedToken.span =
            .ok (underlined (toString (tabbedToken.span.start.line + 1))
              (toString (Position.oneBased tabbedToken.span.stop.line)).length
              left (expandTabs text) right)) := by
  have hmem : .token tabbedToken ∈ Scanner.scanAll false { rest := tabbedText } := by
    decide +kernel
  exact ⟨by decide +kernel, ofSpan_of_token hmem (by decide) rfl⟩

end Excerpt

end Shanty
