import Repackage.Command.Properties
import Repackage.Proofs.Text.Segments
import Repackage.Proofs.Text.Trimming

/-!
# Rule files as they are written

A rule file has lines with an entry, blank lines and comments (`Properties.Line`). Around keys and
values there may be blanks, and a carriage return before a line feed is one of them. All lines are
read, in their order, and an entry becomes its key and its value
(`Properties.parse_render_lines`) with one exception: where a colon separates them and the value has
an equals sign, the line is cut at that sign (`Properties.Entry.reading`), because an equals sign
anywhere in a line comes before a colon.
-/

namespace Repackage

namespace Properties

/-! ## What may stand on a line -/

/-- Blanks that do not end the line. -/
def isPadding (cs : List Char) : Bool := cs.all fun c => Text.isBlank c && c != '\n'

/-- A text that is not empty, has no blanks around it and cannot be taken for a comment or end
before its separator. -/
def isKey (cs : List Char) : Bool :=
  Text.isTrimmed cs && cs.all (fun c => c != '=' && c != ':' && c != '\n') &&
    cs.head?.any fun c => c != '#' && c != '!'

def isValue (cs : List Char) : Bool := Text.isTrimmed cs && cs.all (· != '\n')

abbrev Padding := { cs : List Char // isPadding cs = true }

abbrev Key := { cs : List Char // isKey cs = true }

abbrev Value := { cs : List Char // isValue cs = true }

inductive Separator where
  | equals | colon
deriving DecidableEq

def Separator.char : Separator → Char
  | .equals => '='
  | .colon => ':'

/-- A key and a value on a line, with the blanks around them. -/
structure Entry where
  indent : Padding
  key : Key
  gap : Padding
  separator : Separator
  space : Padding
  value : Value
  trail : Padding

namespace Entry

/-- What stands after the separator. -/
def rest (e : Entry) : List Char := e.space.1 ++ e.value.1 ++ e.trail.1

def chars (e : Entry) : List Char :=
  e.indent.1 ++ (e.key.1 ++ e.gap.1 ++ e.separator.char :: e.rest)

def pair (e : Entry) : String × String := (String.ofList e.key.1, String.ofList e.value.1)

/-- What a line is read as: the key and the value, unless the value is what has the first equals
sign. -/
def reading (e : Entry) : String × String :=
  match e.separator, Text.splitFirst? '=' e.value.1 with
  | .colon, some (start, after) =>
    (String.ofList (Text.trim (e.key.1 ++ e.gap.1 ++ ':' :: (e.space.1 ++ start))),
      String.ofList (Text.trim after))
  | _, _ => e.pair

end Entry

inductive CommentMark where
  | hash | exclamation

def CommentMark.char : CommentMark → Char
  | .hash => '#'
  | .exclamation => '!'

/-- A line of a rule file. -/
inductive Line where
  | entry (e : Entry)
  | blank (padding : Padding)
  | comment (indent : Padding) (mark : CommentMark) (text : { cs : List Char // '\n' ∉ cs })

namespace Line

def chars : Line → List Char
  | .entry e => e.chars
  | .blank padding => padding.1
  | .comment indent mark text => indent.1 ++ mark.char :: text.1

def pair? : Line → Option (String × String)
  | .entry e => some e.pair
  | _ => none

def reading? : Line → Option (String × String)
  | .entry e => some e.reading
  | _ => none

end Line

/-- The text of a file with these lines; it ends with a line feed if the last line is empty. -/
def render : List Line → String
  | [] => ""
  | line :: lines => String.ofList (line.chars ++ lines.flatMap fun line => '\n' :: line.chars)

/-! ## One line -/

section Characters

variable {c : Char}

theorem Padding.isBlank (padding : Padding) (hc : c ∈ padding.1) : Text.isBlank c = true :=
  (Bool.and_eq_true_iff.1 (List.all_eq_true.1 padding.2 c hc)).1

theorem Padding.not_mem (padding : Padding) (hc : Text.isBlank c = false) : c ∉ padding.1 := by
  intro hmem
  rw [padding.isBlank hmem] at hc
  cases hc

theorem Padding.lineFeed_not_mem (padding : Padding) : '\n' ∉ padding.1 := by
  intro hmem
  simpa using (Bool.and_eq_true_iff.1 (List.all_eq_true.1 padding.2 _ hmem)).2

theorem isBlank_equals : Text.isBlank '=' = false := by decide +kernel

theorem isBlank_colon : Text.isBlank ':' = false := by decide +kernel

theorem Separator.isBlank_char (s : Separator) : Text.isBlank s.char = false := by
  cases s with
  | equals => exact isBlank_equals
  | colon => exact isBlank_colon

theorem CommentMark.isBlank_char (m : CommentMark) : Text.isBlank m.char = false := by
  cases m <;> decide +kernel

theorem Key.not_mem (key : Key) (hc : c = '=' ∨ c = ':' ∨ c = '\n') : c ∉ key.1 := by
  intro hmem
  obtain ⟨hfirst, -⟩ := Bool.and_eq_true_iff.1 key.2
  have hplain := List.all_eq_true.1 (Bool.and_eq_true_iff.1 hfirst).2 c hmem
  rcases hc with rfl | rfl | rfl <;> simp at hplain

theorem Key.trim_eq (key : Key) : Text.trim key.1 = key.1 :=
  Text.trim_of_isTrimmed (Bool.and_eq_true_iff.1 (Bool.and_eq_true_iff.1 key.2).1).1

/-- A key starts with a character that is no blank and starts no comment. -/
theorem Key.exists_cons (key : Key) :
    ∃ c cs, key.1 = c :: cs ∧ Text.isBlank c = false ∧ c ≠ '#' ∧ c ≠ '!' := by
  obtain ⟨hfirst, hstart⟩ := Bool.and_eq_true_iff.1 key.2
  have htrimmed := (Bool.and_eq_true_iff.1 (Bool.and_eq_true_iff.1 hfirst).1).1
  cases hkey : key.1 with
  | nil => simp [hkey] at hstart
  | cons c cs =>
    rw [hkey] at hstart htrimmed
    exact ⟨c, cs, rfl, by simpa using htrimmed, by simpa using hstart⟩

theorem Value.trim_eq (value : Value) : Text.trim value.1 = value.1 :=
  Text.trim_of_isTrimmed (Bool.and_eq_true_iff.1 value.2).1

theorem Value.lineFeed_not_mem (value : Value) : '\n' ∉ value.1 := by
  intro hmem
  simpa using List.all_eq_true.1 (Bool.and_eq_true_iff.1 value.2).2 _ hmem

end Characters

namespace Entry

theorem trim_rest (e : Entry) : Text.trim e.rest = e.value.1 := by
  unfold rest
  rw [Text.trim_append_right _ fun _ => e.trail.isBlank,
    Text.trim_append_left fun _ => e.space.isBlank, e.value.trim_eq]

theorem trim_key (e : Entry) : Text.trim (e.key.1 ++ e.gap.1) = e.key.1 := by
  rw [Text.trim_append_right _ fun _ => e.gap.isBlank, e.key.trim_eq]

/-- What is left of a line starts with the key. -/
theorem trim_chars (e : Entry) :
    Text.trim e.chars = e.key.1 ++ e.gap.1 ++ e.separator.char :: Text.trimEnd e.rest := by
  obtain ⟨c, cs, hkey, hc, -⟩ := e.key.exists_cons
  have hstart : Text.trimStart (e.key.1 ++ e.gap.1 ++ e.separator.char :: e.rest) =
      e.key.1 ++ e.gap.1 ++ e.separator.char :: e.rest := by
    simp [Text.trimStart, hkey, hc]
  rw [chars, Text.trim_append_left fun _ => e.indent.isBlank, Text.trim, hstart,
    Text.trimEnd_append_cons _ e.separator.isBlank_char]

theorem isSkipped_trim_chars (e : Entry) : isSkipped (Text.trim e.chars) = false := by
  obtain ⟨c, cs, hkey, -, hhash, hexclamation⟩ := e.key.exists_cons
  simp [trim_chars, hkey, isSkipped, hhash, hexclamation]

theorem not_mem_key_gap (e : Entry) {c : Char} (hc : c = '=' ∨ c = ':') :
    c ∉ e.key.1 ++ e.gap.1 := by
  have hblank : Text.isBlank c = false := by
    rcases hc with rfl | rfl
    · exact isBlank_equals
    · exact isBlank_colon
  rw [List.mem_append, not_or]
  exact ⟨e.key.not_mem (hc.imp_right .inl), e.gap.not_mem hblank⟩

end Entry

/-- A line that is cut into a key and a value. -/
theorem parseEntry_eq {line before after : List Char}
    (h : (Text.splitFirst? '=' line).or (Text.splitFirst? ':' line) = some (before, after))
    (hkey : Text.trim before ≠ []) :
    parseEntry line =
      .ok (String.ofList (Text.trim before), String.ofList (Text.trim after)) := by
  unfold parseEntry
  rw [h]
  simp [hkey]

namespace Entry

theorem reading_eq_pair (e : Entry) (h : e.separator = .colon → '=' ∉ e.value.1) :
    e.reading = e.pair := by
  unfold reading
  split
  · rename_i hseparator hsplit
    rw [Text.splitFirst?_of_not_mem (h hseparator)] at hsplit
    cases hsplit
  · rfl

theorem key_ne_nil (e : Entry) : e.key.1 ≠ [] := by
  obtain ⟨c, cs, hkey, -⟩ := e.key.exists_cons
  rw [hkey]
  exact List.cons_ne_nil c cs

/-- A line that is cut at its separator. -/
theorem parseEntry_of_split (e : Entry) {line : List Char}
    (h : (Text.splitFirst? '=' line).or (Text.splitFirst? ':' line) =
      some (e.key.1 ++ e.gap.1, Text.trimEnd e.rest)) :
    parseEntry line = .ok e.pair := by
  rw [parseEntry_eq h (by rw [e.trim_key]; exact e.key_ne_nil), e.trim_key, Text.trim_trimEnd,
    e.trim_rest]
  rfl

theorem not_mem_rest (e : Entry) (h : '=' ∉ e.value.1) : '=' ∉ Text.trimEnd e.rest := by
  intro hmem
  obtain ⟨dropped, hrest, -⟩ := Text.exists_eq_trimEnd_append e.rest
  have hmem : '=' ∈ e.rest := hrest ▸ List.mem_append_left dropped hmem
  rw [rest, List.mem_append, List.mem_append] at hmem
  rcases hmem with (hmem | hmem) | hmem
  · exact e.space.not_mem isBlank_equals hmem
  · exact h hmem
  · exact e.trail.not_mem isBlank_equals hmem

/-- After a colon, the first equals sign of the value is where the line is cut. -/
theorem parseEntry_astray (e : Entry) (hseparator : e.separator = .colon) (h : '=' ∈ e.value.1) :
    parseEntry (Text.trim e.chars) = .ok e.reading := by
  obtain ⟨start, after, hvalue, hstart⟩ := List.eq_append_cons_of_mem h
  have hreading : e.reading =
      (String.ofList (Text.trim (e.key.1 ++ e.gap.1 ++ ':' :: (e.space.1 ++ start))),
        String.ofList (Text.trim after)) := by
    simp only [reading, hseparator, hvalue, Text.splitFirst?_append hstart]
  have hrest : e.rest = e.space.1 ++ start ++ '=' :: (after ++ e.trail.1) := by
    simp [rest, hvalue]
  have hline : Text.trim e.chars = e.key.1 ++ e.gap.1 ++ ':' :: (e.space.1 ++ start) ++
      '=' :: Text.trimEnd (after ++ e.trail.1) := by
    rw [e.trim_chars, hseparator, hrest, Text.trimEnd_append_cons _ isBlank_equals]
    simp [Separator.char]
  have hbefore : '=' ∉ e.key.1 ++ e.gap.1 ++ ':' :: (e.space.1 ++ start) := by
    have hspace := e.space.not_mem isBlank_equals
    have hkey := e.not_mem_key_gap (.inl rfl)
    simp only [List.mem_append, List.mem_cons, not_or] at hkey ⊢
    exact ⟨hkey, by decide, hspace, hstart⟩
  have hkey : Text.trim (e.key.1 ++ e.gap.1 ++ ':' :: (e.space.1 ++ start)) ≠ [] :=
    List.ne_nil_of_mem (Text.mem_trim isBlank_colon (by simp))
  rw [hline, hreading, parseEntry_eq (by rw [Text.splitFirst?_append hbefore]; rfl) hkey,
    Text.trim_trimEnd, Text.trim_append_right _ fun _ => e.trail.isBlank]

theorem parseEntry_chars (e : Entry) : parseEntry (Text.trim e.chars) = .ok e.reading := by
  cases hseparator : e.separator with
  | equals =>
    rw [e.reading_eq_pair fun h => by rw [hseparator] at h; cases h]
    apply e.parseEntry_of_split
    rw [e.trim_chars, hseparator, Separator.char,
      Text.splitFirst?_append (e.not_mem_key_gap (.inl rfl))]
    rfl
  | colon =>
    by_cases h : '=' ∈ e.value.1
    · exact e.parseEntry_astray hseparator h
    · rw [e.reading_eq_pair fun _ => h]
      apply e.parseEntry_of_split
      have hnone : '=' ∉ e.key.1 ++ e.gap.1 ++ ':' :: Text.trimEnd e.rest := by
        rw [List.mem_append, List.mem_cons, not_or, not_or]
        exact ⟨e.not_mem_key_gap (.inl rfl), by decide, e.not_mem_rest h⟩
      rw [e.trim_chars, hseparator, Separator.char, Text.splitFirst?_of_not_mem hnone,
        Text.splitFirst?_append (e.not_mem_key_gap (.inr rfl)), Option.none_or]

/-- A line is read as its key and its value exactly if it is cut at its separator. -/
theorem reading_eq_pair_iff (e : Entry) :
    e.reading = e.pair ↔ (e.separator = .colon → '=' ∉ e.value.1) := by
  refine ⟨fun hreading hseparator h => ?_, e.reading_eq_pair⟩
  obtain ⟨start, after, hvalue, hstart⟩ := List.eq_append_cons_of_mem h
  simp only [reading, hseparator, hvalue, Text.splitFirst?_append hstart, pair, Prod.mk.injEq,
    String.ofList_inj] at hreading
  -- the colon would be in the key
  refine e.key.not_mem (.inr (.inl rfl)) (hreading.1 ▸ Text.mem_trim isBlank_colon ?_)
  simp

end Entry

/-! ## The whole file -/

theorem isSkipped_trim_blank (padding : Padding) : isSkipped (Text.trim padding.1) = true := by
  rw [Text.trim_eq_nil fun _ => padding.isBlank]
  rfl

theorem isSkipped_trim_comment (indent : Padding) (mark : CommentMark) (text : List Char) :
    isSkipped (Text.trim (indent.1 ++ mark.char :: text)) = true := by
  rw [Text.trim_append_left fun _ => indent.isBlank, Text.trim]
  have hstart : Text.trimStart (mark.char :: text) = [] ++ mark.char :: text := by
    simp [Text.trimStart, mark.isBlank_char]
  rw [hstart, Text.trimEnd_append_cons _ mark.isBlank_char]
  cases mark <;> rfl

theorem parseLines_chars (lines : List Line) (number : Nat) :
    parseLines number (lines.map Line.chars) = .ok (lines.filterMap Line.reading?) := by
  induction lines generalizing number with
  | nil => rfl
  | cons line lines ih =>
    rw [List.map_cons, parseLines]
    cases line with
    | entry e =>
      simp only [Line.chars, e.isSkipped_trim_chars, e.parseEntry_chars, ih]
      rfl
    | blank padding =>
      simp only [Line.chars, isSkipped_trim_blank, if_true, ih]
      rfl
    | comment indent mark text =>
      simp only [Line.chars, isSkipped_trim_comment, if_true, ih]
      rfl

theorem parseLines_congr {ls ls' : List (List Char)} (h : ls.map Text.trim = ls'.map Text.trim)
    (number : Nat) : parseLines number ls = parseLines number ls' := by
  induction ls generalizing ls' number with
  | nil => cases ls' with
    | nil => rfl
    | cons l ls' => cases h
  | cons l ls ih =>
    cases ls' with
    | nil => cases h
    | cons l' ls' =>
      obtain ⟨hl, hls⟩ := List.cons.inj h
      simp only [parseLines, hl, ih hls]

theorem parseLines_append_nil (ls : List (List Char)) (number : Nat) :
    parseLines number (ls ++ [[]]) = parseLines number ls := by
  induction ls generalizing number with
  | nil => rfl
  | cons l ls ih => simp only [List.cons_append, parseLines, ih]

/-- Neither a carriage return at the end of a line nor an empty last line makes a difference. -/
theorem parse_eq (text : String) : parse text = parseLines 1 (Text.segments '\n' text.toList) := by
  have hsegments : Text.segments '\n' text.toList =
      (Text.segments '\n' text.toList).dropLast ++ [Text.lastSegment '\n' text.toList] :=
    Text.segments_eq_dropLast text.toList
  have hlast : (Text.segments '\n' text.toList).getLast? =
      some (Text.lastSegment '\n' text.toList) := by
    rw [hsegments, List.getLast?_concat]
  have htrim (ls : List (List Char)) :
      (ls.map Text.dropReturn).map Text.trim = ls.map Text.trim := by
    rw [List.map_map]
    exact List.map_congr_left fun l _ => Text.trim_dropReturn l
  unfold parse Text.lines
  dsimp only
  rw [hlast]
  cases hend : Text.lastSegment '\n' text.toList with
  | nil =>
    conv => rhs; rw [hsegments, hend, parseLines_append_nil]
    exact parseLines_congr (htrim _) 1
  | cons c last =>
    conv => rhs; rw [hsegments, hend]
    apply parseLines_congr
    rw [List.map_append, htrim, List.map_append]

theorem Line.lineFeed_not_mem (line : Line) : '\n' ∉ line.chars := by
  cases line with
  | entry e =>
    have hseparator : '\n' ≠ e.separator.char := by cases e.separator <;> decide
    simp only [chars, Entry.chars, Entry.rest, List.mem_append, List.mem_cons, not_or]
    exact ⟨e.indent.lineFeed_not_mem,
      ⟨e.key.not_mem (.inr (.inr rfl)), e.gap.lineFeed_not_mem⟩, hseparator,
      ⟨e.space.lineFeed_not_mem, e.value.lineFeed_not_mem⟩, e.trail.lineFeed_not_mem⟩
  | blank padding => exact padding.lineFeed_not_mem
  | comment indent mark text =>
    have hmark : '\n' ≠ mark.char := by cases mark <;> decide
    simp only [chars, List.mem_append, List.mem_cons, not_or]
    exact ⟨indent.lineFeed_not_mem, hmark, text.2⟩

theorem segments_render (line : Line) (lines : List Line) :
    Text.segments '\n' (render (line :: lines)).toList = (line :: lines).map Line.chars := by
  have hothers : ∀ l ∈ lines.map Line.chars, '\n' ∉ l := by
    intro l hl
    obtain ⟨line, -, rfl⟩ := List.mem_map.1 hl
    exact line.lineFeed_not_mem
  rw [render, String.toList_ofList, List.map_cons,
    ← Text.segments_join line.lineFeed_not_mem hothers, List.flatMap_map]

/-- All lines are read, in their order. -/
theorem parse_render_eq (lines : List Line) :
    parse (render lines) = .ok (lines.filterMap Line.reading?) := by
  rw [parse_eq]
  cases lines with
  | nil => rfl
  | cons line lines => rw [segments_render, parseLines_chars]

theorem filterMap_reading?_eq_iff (lines : List Line) :
    lines.filterMap Line.reading? = lines.filterMap Line.pair? ↔
      ∀ e, .entry e ∈ lines → e.separator = .colon → '=' ∉ e.value.1 := by
  induction lines with
  | nil => simp
  | cons line lines ih =>
    cases line with
    | entry e =>
      simp only [List.filterMap_cons, Line.reading?, Line.pair?, List.cons.injEq,
        e.reading_eq_pair_iff, ih]
      simp
    | blank padding =>
      rw [List.filterMap_cons_none rfl, List.filterMap_cons_none rfl, ih]
      simp
    | comment indent mark text =>
      rw [List.filterMap_cons_none rfl, List.filterMap_cons_none rfl, ih]
      simp

/-- Every line is read, and a rule file as the keys and values written in it exactly if no colon
separates a key from a value with an equals sign. -/
theorem parse_render_lines (lines : List Line) :
    parse (render lines) = .ok (lines.filterMap Line.reading?) ∧
      (parse (render lines) = .ok (lines.filterMap Line.pair?) ↔
        ∀ e, .entry e ∈ lines → e.separator = .colon → '=' ∉ e.value.1) := by
  refine ⟨parse_render_eq lines, ?_⟩
  rw [parse_render_eq, Except.ok.injEq]
  exact filterMap_reading?_eq_iff lines

/-- Both separators in a value, blanks of all kinds and a carriage return, and an entry without a
value. -/
def crowded : List Line :=
  [.comment ⟨[' '], rfl⟩ .hash ⟨"a=b".toList, by decide⟩,
    .entry ⟨⟨['\t'], rfl⟩, ⟨"javax.servlet".toList, by decide +kernel⟩, ⟨[' '], rfl⟩, .equals,
      ⟨['\u3000'], by decide +kernel⟩, ⟨"x:y=z".toList, by decide +kernel⟩, ⟨['\r'], rfl⟩⟩,
    .blank ⟨[' ', '\r'], rfl⟩,
    .entry ⟨⟨[], rfl⟩, ⟨"a b".toList, by decide +kernel⟩, ⟨[], rfl⟩, .colon, ⟨[' '], rfl⟩,
      ⟨"[5.0,6):".toList, by decide +kernel⟩, ⟨[], rfl⟩⟩,
    .entry ⟨⟨[], rfl⟩, ⟨"c!".toList, by decide +kernel⟩, ⟨[], rfl⟩, .colon, ⟨[], rfl⟩, ⟨[], rfl⟩,
      ⟨[], rfl⟩⟩]

theorem crowded_plain : ∀ e, .entry e ∈ crowded → e.separator = .colon → '=' ∉ e.value.1 := by
  intro e he
  simp only [crowded, List.mem_cons, Line.entry.injEq, reduceCtorEq, List.not_mem_nil, false_or,
    or_false] at he
  rcases he with rfl | rfl | rfl
  · intro h
    cases h
  · exact fun _ => by decide
  · exact fun _ => by decide

theorem parse_render_lines_crowded :
    (∀ e, .entry e ∈ crowded → e.separator = .colon → '=' ∉ e.value.1) ∧
      parse (render crowded) =
        .ok [("javax.servlet", "x:y=z"), ("a b", "[5.0,6):"), ("c!", "")] :=
  ⟨crowded_plain, (parse_render_lines crowded).2.2 crowded_plain⟩

/-- The key `a`, a colon and the value `b=c`. -/
def ambiguous : Line :=
  .entry ⟨⟨[], rfl⟩, ⟨['a'], by decide +kernel⟩, ⟨[], rfl⟩, .colon, ⟨[], rfl⟩,
    ⟨['b', '=', 'c'], by decide +kernel⟩, ⟨[], rfl⟩⟩

/-- The colon ends up in the key. -/
theorem parse_ambiguous :
    render [ambiguous] = "a:b=c" ∧ [ambiguous].filterMap Line.pair? = [("a", "b=c")] ∧
      parse "a:b=c" = .ok [("a:b", "c")] := by
  refine ⟨by decide +kernel, by decide +kernel, ?_⟩
  rfl

end Properties

end Repackage
