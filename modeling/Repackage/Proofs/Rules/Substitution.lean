import Repackage.Proofs.Rules.Table

/-!
# Packages inside a text

A rule goes through a text from left to right. `Rule.replaceWhole` says what should become of the
text: each whole name is replaced unless it overlaps one replaced before, where the text as it was
given tells what is a whole name. `Rule.substitute?` differs in two ways. It passes over all of a
place that is no whole name, with the whole names that begin inside it; and after a replacement it
looks at the end of that for the character before the next name. Where neither matters
(`Rule.Separate`) the two are the same (`Table.replacePackages_single`).
-/

namespace Repackage

/-! ## Byte offsets -/

namespace Text

variable {cs before after : List Char}

def byteSize (cs : List Char) : Nat := (String.ofList cs).utf8ByteSize

theorem byteSize_nil : byteSize [] = 0 := rfl

theorem byteSize_cons (c : Char) (cs : List Char) :
    byteSize (c :: cs) = c.utf8Size + byteSize cs := by
  rw [byteSize, String.ofList_cons, String.utf8ByteSize_append, String.utf8ByteSize_singleton,
    byteSize]

theorem byteSize_append (as bs : List Char) : byteSize (as ++ bs) = byteSize as + byteSize bs := by
  rw [byteSize, String.ofList_append, String.utf8ByteSize_append, byteSize, byteSize]

theorem byteSize_pos (h : cs ≠ []) : 0 < byteSize cs := by
  obtain ⟨c, cs, rfl⟩ := List.exists_cons_of_ne_nil h
  rw [byteSize_cons]
  have := c.utf8Size_pos
  omega

theorem byteSize_toList (text : String) : byteSize text.toList = text.utf8ByteSize := by
  rw [byteSize, String.ofList_toList]

theorem cutAtByte?_append (before after : List Char) :
    cutAtByte? (byteSize before) (before ++ after) = some (before, after) := by
  induction before with
  | nil => rw [byteSize_nil, List.nil_append, cutAtByte?]
  | cons c before ih =>
    have hpos := c.utf8Size_pos
    obtain ⟨n, hn⟩ : ∃ n, byteSize (c :: before) = n + 1 :=
      ⟨byteSize (c :: before) - 1, by rw [byteSize_cons]; omega⟩
    have hrest : n + 1 - c.utf8Size = byteSize before := by rw [← hn, byteSize_cons]; omega
    have hle : c.utf8Size ≤ n + 1 := by rw [← hn, byteSize_cons]; omega
    rw [hn, List.cons_append, cutAtByte?, if_pos hle, hrest, ih]
    rfl

theorem eq_of_cutAtByte? {n : Nat} (h : cutAtByte? n cs = some (before, after)) :
    cs = before ++ after ∧ byteSize before = n := by
  fun_induction cutAtByte? n cs generalizing before with
  | case1 cs =>
    cases h
    exact ⟨rfl, rfl⟩
  | case2 n => cases h
  | case3 n c cs hle ih =>
    obtain ⟨⟨start, rest⟩, hcut, e⟩ := Option.map_eq_some_iff.1 h
    cases e
    obtain ⟨rfl, hsize⟩ := ih hcut
    refine ⟨rfl, ?_⟩
    rw [byteSize_cons, hsize]
    omega
  | case4 n c cs hle => cases h

end Text

namespace Rule

/-- The key of the rule stands at a byte of the text. -/
def occursAt (r : Rule) (text : String) (start : Nat) : Bool :=
  match Text.cutAtByte? start text.toList with
  | some (_, rest) => r.key.toList.isPrefixOf rest
  | none => false

/-- The key of the rule stands at a byte of the text and is a whole name there. -/
def wholeAt (r : Rule) (text : String) (start : Nat) : Bool :=
  r.occursAt text start && isWholeName text start r.key.utf8ByteSize r.wildcard

/-- Goes on at the byte `start` of a text, of which all up to `done` has been replaced. -/
def replaceWholeFrom (r : Rule) (text : String) (start done : Nat) : List Char → List Char
  | [] => []
  | c :: cs =>
    let next := start + c.utf8Size
    if start < done then r.replaceWholeFrom text next done cs
    else if r.wholeAt text start then
      r.replacement.toList ++ r.replaceWholeFrom text next (start + r.key.utf8ByteSize) cs
    else c :: r.replaceWholeFrom text next done cs

/-- The text with each whole name replaced that does not overlap one replaced before it. -/
def replaceWhole (r : Rule) (text : String) : String :=
  String.ofList (r.replaceWholeFrom text 0 0 text.toList)

/-! ## Places in a text -/

section Places

variable {r : Rule} {text : String} {before after cs : List Char}

theorem occursAt_append (htext : text.toList = before ++ cs) :
    r.occursAt text (Text.byteSize before) = r.key.toList.isPrefixOf cs := by
  rw [occursAt, htext, Text.cutAtByte?_append]

theorem occursAt_key (htext : text.toList = before ++ (r.key.toList ++ after)) :
    r.occursAt text (Text.byteSize before) = true := by
  rw [occursAt_append htext, List.isPrefixOf_iff_prefix]
  exact List.prefix_append _ _

theorem exists_of_occursAt {i : Nat} (h : r.occursAt text i = true) :
    ∃ before after, text.toList = before ++ (r.key.toList ++ after) ∧ Text.byteSize before = i := by
  unfold occursAt at h
  split at h
  · rename_i before rest hcut
    obtain ⟨after, rfl⟩ := List.isPrefixOf_iff_prefix.1 h
    obtain ⟨htext, hsize⟩ := Text.eq_of_cutAtByte? hcut
    exact ⟨before, after, htext, hsize⟩
  · cases h

/-- At a place of the key, the text before and after it tell whether it is a whole name. -/
theorem wholeAt_append (htext : text.toList = before ++ (r.key.toList ++ after)) :
    r.wholeAt text (Text.byteSize before) =
      (startsName before.getLast? && endsName r.wildcard after) := by
  have hend : Text.cutAtByte? (Text.byteSize before + r.key.utf8ByteSize) text.toList =
      some (before ++ r.key.toList, after) := by
    rw [htext, ← Text.byteSize_toList, ← Text.byteSize_append, ← List.append_assoc,
      Text.cutAtByte?_append]
  rw [wholeAt, occursAt_key htext, Bool.true_and, isWholeName, hend, htext, Text.cutAtByte?_append]

theorem wholeAt_eq_false (htext : text.toList = before ++ cs)
    (h : r.key.toList.isPrefixOf cs = false) : r.wholeAt text (Text.byteSize before) = false := by
  rw [wholeAt, occursAt_append htext, h, Bool.false_and]

end Places

/-! ## What goes before -/

section Edges

variable {k : Char} {ks before : List Char} {edge : Option Char}

theorem getLast?_cons_or (c : Char) (before : List Char) (edge : Option Char) :
    (c :: before).getLast?.or edge = before.getLast?.or (some c) := by
  rw [List.getLast?_cons]
  cases before.getLast? <;> rfl

theorem getLast?_append_or (k : Char) (ks before : List Char) (edge : Option Char) :
    (k :: ks ++ before).getLast?.or edge = before.getLast?.or (k :: ks).getLast? := by
  rw [List.getLast?_append, Option.or_assoc, List.getLast?_cons]
  rfl

/-- A text without whole names stays as it is. -/
theorem substituteFrom?_eq_none {replacement cs : List Char} {deep : Bool}
    (h : ∀ before after, cs = before ++ (k :: ks ++ after) →
      startsName (before.getLast?.or edge) = true → endsName deep after = false) :
    substituteFrom? k ks replacement deep edge cs = none := by
  fun_induction substituteFrom? k ks replacement deep edge cs with
  | case1 => rfl
  | case2 edge c cs _ ih =>
    rw [ih, Option.map_none]
    rintro before after rfl hstarts
    exact h (c :: before) after rfl (by rwa [getLast?_cons_or])
  | case3 edge c cs rest hfound hwhole =>
    obtain ⟨hstarts, hends⟩ := Bool.and_eq_true_iff.1 hwhole
    rw [h [] rest (List.isPrefixOf?_eq_some_iff_append_eq.1 hfound).symm hstarts] at hends
    cases hends
  | case4 edge c cs rest hfound _ ih =>
    rw [ih, Option.map_none]
    rintro before after rfl hstarts
    refine h (k :: ks ++ before) after ?_ (by rwa [getLast?_append_or])
    rw [← List.isPrefixOf?_eq_some_iff_append_eq.1 hfound, List.append_assoc]

/-- A whole name at the start of a text is replaced. -/
theorem substituteFrom?_whole {replacement rest : List Char} {deep : Bool}
    (hwhole : (startsName edge && endsName deep rest) = true) :
    substituteFrom? k ks replacement deep edge (k :: ks ++ rest) =
      some (replacement ++ (substituteFrom? k ks replacement deep
        (replacement.getLast?.or edge) rest).getD rest) := by
  have hfound : (k :: ks).isPrefixOf? (k :: (ks ++ rest)) = some rest :=
    List.isPrefixOf?_eq_some_iff_append_eq.2 rfl
  rw [List.cons_append, substituteFrom?]
  split
  · rename_i hnone
    rw [hfound] at hnone
    cases hnone
  · rename_i rest' hrest
    cases hfound.symm.trans hrest
    rw [if_pos hwhole]

end Edges

/-! ## The text as it should become -/

section Replacing

variable {r : Rule} {text : String} {start done : Nat} {before cs rest : List Char}

/-- What was replaced before a byte is no longer of interest there. -/
theorem replaceWholeFrom_of_le (hdone : done ≤ start) (cs : List Char) :
    r.replaceWholeFrom text start done cs = r.replaceWholeFrom text start start cs := by
  induction cs generalizing start done with
  | nil => rfl
  | cons c cs ih =>
    have hnext := c.utf8Size_pos
    unfold replaceWholeFrom
    simp only [if_neg (Nat.not_lt.2 hdone), Nat.lt_irrefl, if_false]
    have hle : done ≤ start + c.utf8Size := by omega
    have hstart : start ≤ start + c.utf8Size := by omega
    rw [ih hle, ih hstart]

/-- What is replaced is left out. -/
theorem replaceWholeFrom_covered (hdone : start + Text.byteSize cs ≤ done) :
    r.replaceWholeFrom text start done (cs ++ rest) =
      r.replaceWholeFrom text (start + Text.byteSize cs) done rest := by
  induction cs generalizing start with
  | nil => rfl
  | cons c cs ih =>
    rw [Text.byteSize_cons] at hdone ⊢
    have hpos := c.utf8Size_pos
    rw [List.cons_append, replaceWholeFrom]
    simp only [if_pos (show start < done by omega)]
    rw [ih (by omega), Nat.add_assoc]

theorem replaceWholeFrom_replaced (hkey : r.key.toList ≠ [])
    (hwhole : r.wholeAt text start = true) :
    r.replaceWholeFrom text start start (r.key.toList ++ rest) = r.replacement.toList ++
      r.replaceWholeFrom text (start + r.key.utf8ByteSize) (start + r.key.utf8ByteSize) rest := by
  obtain ⟨k, ks, hks⟩ := List.exists_cons_of_ne_nil hkey
  have hsize : start + k.utf8Size + Text.byteSize ks = start + r.key.utf8ByteSize := by
    rw [← Text.byteSize_toList, hks, Text.byteSize_cons, Nat.add_assoc]
  rw [hks, List.cons_append, replaceWholeFrom]
  simp only [Nat.lt_irrefl, if_false, hwhole, if_true]
  rw [← hsize, replaceWholeFrom_covered (Nat.le_refl _)]

theorem replaceWholeFrom_next (hnot : r.wholeAt text (Text.byteSize before) = false) (c : Char)
    (cs : List Char) :
    r.replaceWholeFrom text (Text.byteSize before) (Text.byteSize before) (c :: cs) =
      c :: r.replaceWholeFrom text (Text.byteSize (before ++ [c]))
        (Text.byteSize (before ++ [c])) cs := by
  have hnext : Text.byteSize before + c.utf8Size = Text.byteSize (before ++ [c]) := by
    rw [Text.byteSize_append, Text.byteSize_cons, Text.byteSize_nil, Nat.add_zero]
  have hle : Text.byteSize before ≤ Text.byteSize (before ++ [c]) := by omega
  rw [replaceWholeFrom]
  simp only [Nat.lt_irrefl, if_false, hnot, Bool.false_eq_true]
  rw [hnext, replaceWholeFrom_of_le hle]

/-- Text in which no whole name begins is copied. -/
theorem replaceWholeFrom_copied {copied : List Char}
    (h : ∀ more after, copied = more ++ after → after ≠ [] →
      r.wholeAt text (Text.byteSize (before ++ more)) = false) :
    r.replaceWholeFrom text (Text.byteSize before) (Text.byteSize before) (copied ++ rest) =
      copied ++ r.replaceWholeFrom text (Text.byteSize (before ++ copied))
        (Text.byteSize (before ++ copied)) rest := by
  induction copied generalizing before with
  | nil => rw [List.append_nil, List.nil_append, List.nil_append]
  | cons c copied ih =>
    have hfirst : r.wholeAt text (Text.byteSize before) = false := by
      have := h [] (c :: copied) rfl (List.cons_ne_nil _ _)
      rwa [List.append_nil] at this
    have hothers (more after : List Char) (hcopied : copied = more ++ after) (hafter : after ≠ []) :
        r.wholeAt text (Text.byteSize (before ++ [c] ++ more)) = false := by
      rw [List.append_assoc, List.singleton_append]
      exact h (c :: more) after (by rw [hcopied, List.cons_append]) hafter
    rw [List.cons_append, replaceWholeFrom_next hfirst, ih hothers, List.append_assoc,
      List.singleton_append, List.cons_append]

end Replacing

/-! ## Where the two are the same -/

/-- No whole name begins inside a place of the key that is none. And where the key stands right
after a whole name, the replacement ends like the key: a name can start after both or neither. -/
structure Separate (r : Rule) (text : String) : Prop where
  overlap : ∀ i j, r.occursAt text i = true → r.wholeAt text j = true → i < j →
    j < i + r.key.utf8ByteSize → r.wholeAt text i = true
  follow : ∀ i, r.wholeAt text i = true → r.occursAt text (i + r.key.utf8ByteSize) = true →
    startsName r.replacement.toList.getLast? = startsName r.key.toList.getLast?

namespace Separate

variable {r : Rule} {text : String} {k : Char} {ks before cs : List Char} {edge : Option Char}

theorem wholeAt_inside (h : r.Separate text) {after more rest : List Char}
    (htext : text.toList = before ++ (r.key.toList ++ after))
    (hnot : r.wholeAt text (Text.byteSize before) = false) (hkey : r.key.toList = more ++ rest)
    (hrest : rest ≠ []) : r.wholeAt text (Text.byteSize (before ++ more)) = false := by
  by_cases hmore : more = []
  · rw [hmore, List.append_nil, hnot]
  · have hmoreSize := Text.byteSize_pos hmore
    have hrestSize := Text.byteSize_pos hrest
    have hsize : r.key.utf8ByteSize = Text.byteSize more + Text.byteSize rest := by
      rw [← Text.byteSize_toList, hkey, Text.byteSize_append]
    rw [Text.byteSize_append]
    refine Bool.eq_false_iff.2 fun hwhole => ?_
    have hfirst := h.overlap _ _ (occursAt_key htext) hwhole (by omega) (by omega)
    rw [hnot] at hfirst
    cases hfirst

/-- If nothing is replaced, the text has no whole name. -/
theorem wholeAt_of_eq_none (h : r.Separate text) (hkey : r.key.toList = k :: ks)
    (htext : text.toList = before ++ cs) (hedge : edge = before.getLast?)
    {replacement : List Char} (hnone : substituteFrom? k ks replacement r.wildcard edge cs = none)
    {more after : List Char} (hcs : cs = more ++ (k :: ks ++ after)) :
    r.wholeAt text (Text.byteSize (before ++ more)) = false := by
  fun_induction substituteFrom? k ks replacement r.wildcard edge cs generalizing before more with
  | case1 => simp at hcs
  | case2 edge c cs hmissing ih =>
    cases more with
    | nil =>
      have hfound : (k :: ks).isPrefixOf? (c :: cs) = some after :=
        List.isPrefixOf?_eq_some_iff_append_eq.2 hcs.symm
      rw [hmissing] at hfound
      cases hfound
    | cons d more =>
      obtain ⟨rfl, hmore⟩ := List.cons.inj hcs
      have htext' : text.toList = before ++ [c] ++ cs := by
        rw [htext, List.append_assoc, List.singleton_append]
      have := ih htext' List.getLast?_concat.symm (Option.map_eq_none_iff.1 hnone) hmore
      rwa [List.append_assoc] at this
  | case3 edge c cs rest hfound hwhole => cases hnone
  | case4 edge c cs rest hfound hnot ih =>
    have hrest := List.isPrefixOf?_eq_some_iff_append_eq.1 hfound
    rw [← hrest] at htext hcs
    -- either the place lies behind the one that is passed over, or it begins inside it
    have hbehind {more : List Char} (hmore : rest = more ++ (k :: ks ++ after)) :
        r.wholeAt text (Text.byteSize (before ++ (k :: ks ++ more))) = false := by
      have htext' : text.toList = before ++ k :: ks ++ rest := by rw [htext, List.append_assoc]
      have hlast : (k :: ks).getLast? = (before ++ k :: ks).getLast? :=
        (List.getLast?_append_of_ne_nil _ (List.cons_ne_nil _ _)).symm
      have := ih htext' hlast (Option.map_eq_none_iff.1 hnone) hmore
      rwa [List.append_assoc] at this
    rcases List.append_eq_append_iff.1 hcs with ⟨more, rfl, hmore⟩ | ⟨inside, hinside, hmore⟩
    · exact hbehind hmore
    · by_cases hempty : inside = []
      · rw [hempty, List.append_nil] at hinside
        rw [← hinside, ← List.append_nil (k :: ks)]
        exact hbehind (by rw [hmore, hempty]; rfl)
      · refine h.wholeAt_inside (by rw [htext, hkey]) ?_ (hkey.trans hinside) hempty
        rw [wholeAt_append (by rw [htext, hkey]), ← hedge]
        exact Bool.eq_false_iff.2 hnot

/-- From any byte on the text becomes what it should. The character before, which is that of the
new text, counts only where the key stands. -/
theorem getD_substituteFrom? (h : r.Separate text) (hkey : r.key.toList = k :: ks)
    (htext : text.toList = before ++ cs)
    (hedge : r.occursAt text (Text.byteSize before) = true →
      startsName edge = startsName before.getLast?) :
    (substituteFrom? k ks r.replacement.toList r.wildcard edge cs).getD cs =
      r.replaceWholeFrom text (Text.byteSize before) (Text.byteSize before) cs := by
  have hlast (before : List Char) : (before ++ k :: ks).getLast? = (k :: ks).getLast? :=
    List.getLast?_append_of_ne_nil before (List.cons_ne_nil k ks)
  fun_induction substituteFrom? k ks r.replacement.toList r.wildcard edge cs
    generalizing before with
  | case1 => rfl
  | case2 edge c cs hmissing ih =>
    have hnot : r.wholeAt text (Text.byteSize before) = false := by
      refine wholeAt_eq_false htext ?_
      rw [hkey, ← Bool.not_eq_true, List.isPrefixOf_iff_prefix]
      rintro ⟨rest, hrest⟩
      rw [List.isPrefixOf?_eq_some_iff_append_eq.2 hrest] at hmissing
      cases hmissing
    have htext' : text.toList = before ++ [c] ++ cs := by
      rw [htext, List.append_assoc, List.singleton_append]
    rw [replaceWholeFrom_next hnot, ← ih htext' fun _ => by rw [List.getLast?_concat]]
    cases substituteFrom? k ks r.replacement.toList r.wildcard (some c) cs <;> rfl
  | case3 edge c cs rest hfound hwhole edge' =>
    rename_i ih
    have hrest := List.isPrefixOf?_eq_some_iff_append_eq.1 hfound
    have hplace : text.toList = before ++ (r.key.toList ++ rest) := by rw [htext, hkey, hrest]
    have htext' : text.toList = before ++ k :: ks ++ rest := by rw [hplace, hkey, List.append_assoc]
    obtain ⟨hstarts, hends⟩ := Bool.and_eq_true_iff.1 hwhole
    have hwholeAt : r.wholeAt text (Text.byteSize before) = true := by
      rw [wholeAt_append hplace, ← hedge (occursAt_key hplace), hwhole]
    have hsize : Text.byteSize (before ++ k :: ks) = Text.byteSize before + r.key.utf8ByteSize := by
      rw [Text.byteSize_append, ← hkey, Text.byteSize_toList]
    -- a name that follows at once comes after the replacement, or after what was before the key
    have hedge' (hnext : r.occursAt text (Text.byteSize (before ++ k :: ks)) = true) :
        startsName (r.replacement.toList.getLast?.or edge) =
          startsName (before ++ k :: ks).getLast? := by
      rw [hlast, ← hkey, ← h.follow _ hwholeAt (hsize ▸ hnext)]
      cases r.replacement.toList.getLast? with
      | none => exact hstarts
      | some c => rfl
    have hne : r.key.toList ≠ [] := by rw [hkey]; exact List.cons_ne_nil _ _
    rw [Option.getD_some, ih htext' hedge', hsize, ← replaceWholeFrom_replaced hne hwholeAt, hkey,
      hrest]
  | case4 edge c cs rest hfound hnot ih =>
    have hrest := List.isPrefixOf?_eq_some_iff_append_eq.1 hfound
    have hplace : text.toList = before ++ (r.key.toList ++ rest) := by rw [htext, hkey, hrest]
    have htext' : text.toList = before ++ k :: ks ++ rest := by rw [hplace, hkey, List.append_assoc]
    have hnotAt : r.wholeAt text (Text.byteSize before) = false := by
      rw [wholeAt_append hplace, ← hedge (occursAt_key hplace)]
      exact Bool.eq_false_iff.2 hnot
    rw [← hrest, replaceWholeFrom_copied fun more after hmore hafter =>
      h.wholeAt_inside hplace hnotAt (hkey.trans hmore) hafter,
      ← ih htext' fun _ => by rw [hlast]]
    cases substituteFrom? k ks r.replacement.toList r.wildcard (k :: ks).getLast? rest <;> rfl

end Separate

section Substitution

variable {r : Rule} {text : String} {new : List Char}

theorem exists_of_wholeAt {i : Nat} (h : r.wholeAt text i = true) :
    ∃ before after, text.toList = before ++ (r.key.toList ++ after) ∧ Text.byteSize before = i ∧
      startsName before.getLast? = true ∧ endsName r.wildcard after = true := by
  obtain ⟨before, after, htext, rfl⟩ := exists_of_occursAt (Bool.and_eq_true_iff.1 h).1
  rw [wholeAt_append htext] at h
  exact ⟨before, after, htext, rfl, Bool.and_eq_true_iff.1 h⟩

/-- Whatever the rule, it changes no text that does not have its key as a whole name. -/
theorem substitute?_eq_none (h : ∀ i, r.wholeAt text i = false) :
    r.substitute? text.toList = none := by
  unfold substitute?
  split
  · rfl
  · rename_i k ks hkey
    refine substituteFrom?_eq_none fun before after htext hstarts => ?_
    rw [← hkey] at htext
    have hnot := h (Text.byteSize before)
    rw [Option.or_none] at hstarts
    rwa [wholeAt_append htext, hstarts, Bool.true_and] at hnot

theorem Separate.substitute?_eq_none_iff (h : r.Separate text) (hkey : r.key ≠ "") :
    r.substitute? text.toList = none ↔ ∀ i, r.wholeAt text i = false := by
  refine ⟨fun hnone i => ?_, substitute?_eq_none⟩
  refine Bool.eq_false_iff.2 fun hwhole => ?_
  obtain ⟨before, after, htext, rfl, -⟩ := exists_of_wholeAt hwhole
  unfold substitute? at hnone
  split at hnone
  · rename_i hnil
    exact hkey (String.toList_eq_nil_iff.1 hnil)
  · rename_i k ks hks
    rw [hks] at htext
    have hnot := h.wholeAt_of_eq_none hks (List.nil_append _).symm rfl hnone htext
    rw [List.nil_append, hwhole] at hnot
    cases hnot

theorem Separate.eq_replaceWhole (h : r.Separate text)
    (hnew : r.substitute? text.toList = some new) : String.ofList new = r.replaceWhole text := by
  unfold substitute? at hnew
  split at hnew
  · cases hnew
  · rename_i k ks hks
    have hscan : (substituteFrom? k ks r.replacement.toList r.wildcard none text.toList).getD
        text.toList = _ := h.getD_substituteFrom? hks (List.nil_append _).symm fun _ => rfl
    rw [hnew, Option.getD_some] at hscan
    rw [replaceWhole, hscan]
    rfl

end Substitution

/-! ## Keys that separate any text -/

/-- The key overlaps itself only where no name can start. -/
def solid (r : Rule) : Bool :=
  (List.range r.key.toList.length).all fun n =>
    n == 0 || !(r.key.toList.drop n).isPrefixOf r.key.toList ||
      !startsName (r.key.toList.take n).getLast?

theorem startsName_of_solid {r : Rule} {start rest : List Char} (h : r.solid = true)
    (hkey : r.key.toList = start ++ rest) (hstart : start ≠ []) (hrest : rest ≠ [])
    (hagain : rest <+: r.key.toList) : startsName start.getLast? = false := by
  have hlength : start.length < r.key.toList.length := by
    have := List.length_pos_of_ne_nil hrest
    rw [hkey, List.length_append]
    omega
  have hn := List.all_eq_true.1 h start.length (List.mem_range.2 hlength)
  rw [hkey, List.drop_left, List.take_left, ← hkey, List.isPrefixOf_iff_prefix.2 hagain] at hn
  simpa [hstart] using hn

/-- Of two places of the key that overlap, the second begins after a part of the key. -/
theorem exists_of_overlap {r : Rule} {before after before' after' : List Char}
    (h : before ++ (r.key.toList ++ after) = before' ++ (r.key.toList ++ after'))
    (hlt : Text.byteSize before < Text.byteSize before')
    (hinside : Text.byteSize before' < Text.byteSize before + r.key.utf8ByteSize) :
    ∃ start rest, before' = before ++ start ∧ r.key.toList = start ++ rest ∧ start ≠ [] ∧
      rest ≠ [] ∧ rest <+: r.key.toList := by
  rw [← Text.byteSize_toList] at hinside
  rcases List.append_eq_append_iff.1 h with ⟨start, rfl, hstarts⟩ | ⟨start, rfl, -⟩
  · rw [Text.byteSize_append] at hlt hinside
    have hstart : start ≠ [] := by
      rintro rfl
      rw [Text.byteSize_nil] at hlt
      omega
    rcases List.append_eq_append_iff.1 hstarts with ⟨rest, rfl, -⟩ | ⟨rest, hkey, hrests⟩
    · rw [Text.byteSize_append] at hinside
      omega
    · have hrest : rest ≠ [] := by
        rintro rfl
        rw [hkey, List.append_nil] at hinside
        omega
      refine ⟨start, rest, rfl, hkey, hstart, hrest, ?_⟩
      have hlength : rest.length ≤ r.key.toList.length := by
        rw [hkey, List.length_append]
        omega
      exact List.prefix_of_prefix_length_le ⟨after, hrests.symm⟩ ⟨after', rfl⟩ hlength
  · rw [Text.byteSize_append] at hlt
    omega

/-- The text does not matter if the key is solid and starts like an identifier. -/
theorem separate_of_solid {r : Rule} (hsolid : r.solid = true)
    (hfirst : r.key.toList.head?.any isIdentifierPart = true) (text : String) :
    r.Separate text where
  overlap i j hi hj hlt hinside := by
    obtain ⟨before, after, htext, rfl⟩ := exists_of_occursAt hi
    obtain ⟨before', after', htext', rfl, hstarts, -⟩ := exists_of_wholeAt hj
    obtain ⟨start, rest, rfl, hkey, hstart, hrest, hagain⟩ :=
      exists_of_overlap (htext.symm.trans htext') hlt hinside
    have hnot := startsName_of_solid hsolid hkey hstart hrest hagain
    rw [List.getLast?_append_of_ne_nil _ hstart, hnot] at hstarts
    cases hstarts
  follow i hi hnext := by
    obtain ⟨before, after, htext, rfl, -, hends⟩ := exists_of_wholeAt hi
    -- after a whole name there is no identifier
    rw [← List.append_assoc] at htext
    rw [← Text.byteSize_toList, ← Text.byteSize_append, occursAt_append htext,
      List.isPrefixOf_iff_prefix] at hnext
    obtain ⟨more, rfl⟩ := hnext
    cases hkey : r.key.toList with
    | nil => rw [hkey] at hfirst; cases hfirst
    | cons k ks =>
      rw [hkey] at hfirst hends
      have hpart : isIdentifierPart k = true := hfirst
      simp [endsName, hpart] at hends

end Rule

namespace Table

variable {t : Table} {r : Rule}

theorem replaceAll_eq_none {text : List Char} {rules : List Rule}
    (h : ∀ r ∈ rules, r.substitute? text = none) : replaceAll text rules = none := by
  induction rules with
  | nil => rfl
  | cons r rules ih =>
    rw [replaceAll, h r List.mem_cons_self]
    exact ih fun r hr => h r (List.mem_cons_of_mem _ hr)

/-- The first rule that changes a text is the first one applied. -/
theorem replaceAll_append {text new : List Char} {earlier later : List Rule}
    (hearlier : ∀ s ∈ earlier, s.substitute? text = none) (hr : r.substitute? text = some new) :
    replaceAll text (earlier ++ r :: later) = some ((replaceAll new later).getD new) := by
  induction earlier with
  | nil => rw [List.nil_append, replaceAll, hr]
  | cons s earlier ih =>
    rw [List.cons_append, replaceAll, hearlier s List.mem_cons_self]
    exact ih fun s hs => hearlier s (List.mem_cons_of_mem _ hs)

/-- No package with a separator in its name is found in a text without one. -/
theorem replacePackages_eq_none (hrules : ∀ r ∈ t.rules, '.' ∈ r.key.toList) {text : String}
    {form : NameForm} (h : form.separator ∉ text.toList) : t.replacePackages text form = none := by
  rw [replacePackages, replaceAll_eq_none, Option.map_none]
  intro r hr
  obtain ⟨r, hrule, rfl⟩ := mem_ordered.1 hr
  have hkey : form.separator ∈ (r.inForm form).key.toList := by
    rw [Rule.inForm, NameForm.spell, String.toList_ofList]
    exact List.mem_map.2 ⟨'.', hrules r hrule, if_pos rfl⟩
  refine Rule.substitute?_eq_none fun i => Bool.eq_false_iff.2 fun hwhole => ?_
  obtain ⟨before, after, htext, -⟩ := Rule.exists_of_wholeAt hwhole
  rw [htext] at h
  exact h (List.mem_append_right _ (List.mem_append_left _ hkey))

/-! ## Tables of one rule -/

theorem ordered_of_single (hrules : t.rules = [r]) (form : NameForm) :
    t.ordered form = [r.inForm form] := by
  have hperm := t.byLength_perm
  rw [hrules] at hperm
  rw [ordered, hperm.eq_singleton, List.map_singleton]

theorem replacePackages_of_single (hrules : t.rules = [r]) (text : String) (form : NameForm) :
    t.replacePackages text form =
      ((r.inForm form).substitute? text.toList).map String.ofList := by
  rw [replacePackages, ordered_of_single hrules, replaceAll]
  cases (r.inForm form).substitute? text.toList <;> rfl

/-- Whole names are replaced throughout a text, unless one begins inside a place that is none or
follows another at once. -/
theorem replacePackages_single (ht : t.Built) (hrules : t.rules = [r]) {text : String}
    {form : NameForm} (h : (r.inForm form).Separate text) :
    (t.replacePackages text form = none ↔ ∀ i, (r.inForm form).wholeAt text i = false) ∧
      ∀ new, t.replacePackages text form = some new → new = (r.inForm form).replaceWhole text := by
  have hkey : (r.inForm form).key ≠ "" := by
    have hallowed := ht.keysAllowed
    rw [hrules, List.map_singleton] at hallowed
    intro hempty
    rw [← String.utf8ByteSize_eq_zero_iff, Rule.inForm, NameForm.utf8ByteSize_spell,
      String.utf8ByteSize_eq_zero_iff] at hempty
    exact hallowed.2 (List.mem_singleton.2 hempty.symm)
  rw [replacePackages_of_single hrules]
  refine ⟨?_, fun new hnew => ?_⟩
  · rw [Option.map_eq_none_iff, h.substitute?_eq_none_iff hkey]
  · obtain ⟨cs, hcs, rfl⟩ := Option.map_eq_some_iff.1 hnew
    exact h.eq_replaceWhole hcs

/-- The table with one rule. -/
def single (r : Rule) : Table := .ofSorted [r] (List.pairwise_singleton _ r)

theorem built_single (key replacement : String) (hkey : r.key ≠ "")
    (hrules : (Builder.rename {} key replacement).rules = [r]) : (single r).Built := by
  have hkeys : KeysAllowed [r.key] :=
    ⟨List.pairwise_singleton _ _, fun h => hkey (List.mem_singleton.1 h).symm⟩
  exact .build (.rename key replacement .start)
    (Builder.build_of_parts hrules (checkKeys_eq_ok.2 hkeys) rfl rfl rfl)

/-- A key that does not overlap itself. -/
def servlet : Rule := ⟨"javax.servlet", "jakarta.servlet", false⟩

/-- The package twice, and once the start of a longer name. -/
def listing : String := "é/javax/servlet/x, javax/servlet2, javax/servlet"

theorem replacePackages_single_servlet :
    (single servlet).Built ∧ (servlet.inForm .binary).Separate listing ∧
      (single servlet).replacePackages listing .binary =
        some "é/jakarta/servlet/x, javax/servlet2, jakarta/servlet" := by
  have ht : (single servlet).Built :=
    built_single "javax.servlet" "jakarta.servlet" (by decide) (by decide +kernel)
  have hseparate : (servlet.inForm .binary).Separate listing :=
    Rule.separate_of_solid (by decide +kernel) (by decide +kernel) listing
  obtain ⟨hnone, hnew⟩ := replacePackages_single ht rfl hseparate
  refine ⟨ht, hseparate, ?_⟩
  cases h : (single servlet).replacePackages listing .binary with
  | none =>
    have hwhole : (servlet.inForm .binary).wholeAt listing 3 = true := by decide +kernel
    rw [hnone.1 h 3] at hwhole
    cases hwhole
  | some new =>
    rw [hnew new h]
    decide +kernel

/-- A key that overlaps itself after a slash. -/
def doubled : Rule := ⟨"a.a", "b.c", false⟩

/-- A key after which a name can start, with a replacement after which none can. -/
def dashed : Rule := ⟨"-a-", "b", false⟩

/-- The whole name at the third byte begins inside a place that is none. And the second of two
whole names is taken for the end of a longer one, since it comes after the replacement. -/
theorem replacePackages_passes_over :
    (single doubled).Built ∧ (doubled.inForm .binary).wholeAt "xa/a/a/Y" 3 = true ∧
      (doubled.inForm .binary).replaceWhole "xa/a/a/Y" = "xa/b/c/Y" ∧
      (single doubled).replacePackages "xa/a/a/Y" .binary = none ∧
      (single dashed).Built ∧ (dashed.inForm .dotted).replaceWhole "-a--a-" = "bb" ∧
      (single dashed).replacePackages "-a--a-" .dotted = some "b-a-" := by
  have hdoubled : (single doubled).Built :=
    built_single "a.a" "b.c" (by decide) (by decide +kernel)
  have hdashed : (single dashed).Built :=
    built_single "-a-" "b" (by decide) (by decide +kernel)
  refine ⟨hdoubled, ?_, ?_, ?_, hdashed, ?_⟩ <;> decide +kernel

end Table

end Repackage
