import TxLifecycle.Source.Lines

/-!
# Positions of offsets

A position is shown to a reader and compared with ranges, so it must say where an offset is and
keep the order of offsets. Positions are found by binary search among the starts of lines.

* `LineIndex.searchWithin_spec`: what the search finds among increasing starts;
* `LineIndex.lineAt_spec`: hence the line of an offset is the last one that starts at or before it;
* `LineStart`: where the line of an offset starts, told from the text alone;
* `LineIndex.position_le_iff`: positions are ordered as offsets are, if no line is too long to count
  its columns.

The main statement is `LineIndex.position_exact`.
-/

namespace TxLifecycle

/-! ## The text -/

/-- The line on which the offset falls starts at `start`: there the text begins or a newline ends,
and no newline stands between. -/
structure LineStart (bytes : List UInt8) (offset start : Nat) : Prop where
  le : start ≤ offset
  begins : start = 0 ∨ bytes[start - 1]? = some 10
  unbroken : ∀ i, start ≤ i → i < offset → bytes[i]? ≠ some 10

/-- A line starts behind each newline, and nowhere else. -/
theorem mem_lineStartsFrom {base start : Nat} {bytes : List UInt8} :
    start ∈ lineStartsFrom base bytes ↔ ∃ i, bytes[i]? = some 10 ∧ start = base + i + 1 := by
  induction bytes generalizing base with
  | nil => simp [lineStartsFrom]
  | cons byte rest ih =>
    have hrest : start ∈ lineStartsFrom (base + 1) rest ↔
        ∃ i, (byte :: rest)[i + 1]? = some 10 ∧ start = base + (i + 1) + 1 := by
      rw [ih]
      refine exists_congr fun i => ?_
      rw [List.getElem?_cons_succ, Nat.add_right_comm base 1 i, Nat.add_assoc base i 1]
    constructor
    · intro h
      rw [lineStartsFrom] at h
      split at h
      · rename_i hbyte
        rcases List.mem_cons.mp h with rfl | h
        · exact ⟨0, by rw [hbyte]; rfl, rfl⟩
        · obtain ⟨i, hi⟩ := hrest.mp h
          exact ⟨i + 1, hi⟩
      · obtain ⟨i, hi⟩ := hrest.mp h
        exact ⟨i + 1, hi⟩
    · rintro ⟨i, hget, rfl⟩
      rw [lineStartsFrom]
      cases i with
      | zero =>
        rw [if_pos (Option.some.inj hget)]
        exact List.mem_cons_self
      | succ i =>
        have hmem := hrest.mpr ⟨i, hget, rfl⟩
        split
        · exact List.mem_cons_of_mem _ hmem
        · exact hmem

/-- As many lines start up to some place as newlines stand before it. -/
theorem countP_lineStartsFrom (base n : Nat) (bytes : List UInt8) :
    (lineStartsFrom base bytes).countP (· ≤ base + n) = (bytes.take n).count 10 := by
  induction bytes generalizing base n with
  | nil => simp [lineStartsFrom]
  | cons byte rest ih =>
    cases n with
    | zero =>
      -- all lines start later
      rw [List.take_zero, List.count_nil, List.countP_eq_zero]
      intro start hstart
      have := lt_of_mem_lineStartsFrom hstart
      simpa using this
    | succ n =>
      have hrest := ih (base + 1) n
      rw [Nat.add_assoc base 1 n, Nat.add_comm 1 n] at hrest
      rw [lineStartsFrom, List.take_succ_cons, List.count_cons, ← hrest]
      by_cases hbyte : byte = 10
      · rw [if_pos hbyte, List.countP_cons]
        simp [hbyte]
      · simp [hbyte]

namespace LineIndex

variable (index : LineIndex) {offset start : Nat}

/-! ## Binary search -/

variable {index} in
theorem getElem_lt {i j : Nat} (hij : i < j) (hj : j < index.starts.size) :
    index.starts[i] < index.starts[j] := by
  have hpairwise := List.pairwise_iff_getElem.mp index.increasing i j
    (by simpa using Nat.lt_trans hij hj) (by simpa using hj) hij
  simpa using hpairwise

variable {index} in
theorem getElem_le {i j : Nat} (hij : i ≤ j) (hj : j < index.starts.size) :
    index.starts[i] ≤ index.starts[j] := by
  rcases Nat.lt_or_eq_of_le hij with hlt | rfl
  · exact Nat.le_of_lt (getElem_lt hlt hj)
  · exact Nat.le_refl _

/-- The result of a search is right: the line starts at the offset, or the lines before it start
before the offset and all others after it. -/
def Locates (offset : Nat) : LineSearch → Prop
  | .found line => ∃ h : line < index.starts.size, index.starts[line] = offset
  | .missing next => next ≤ index.starts.size ∧
      (∀ i, ∀ h : i < index.starts.size, i < next → index.starts[i] < offset) ∧
      ∀ i, ∀ h : i < index.starts.size, next ≤ i → offset < index.starts[i]

/-- A search in a part of the starts is right if the offset is not to be found elsewhere. -/
theorem searchWithin_spec (offset lo hi : Nat) (hhi : hi ≤ index.starts.size) (hle : lo ≤ hi)
    (hbelow : ∀ i, ∀ h : i < index.starts.size, i < lo → index.starts[i] < offset)
    (habove : ∀ i, ∀ h : i < index.starts.size, hi ≤ i → offset < index.starts[i]) :
    index.Locates offset (index.searchWithin offset lo hi hhi) := by
  fun_induction searchWithin index offset lo hi hhi with
  | case1 lo hi hhi hlt middle hmiddle heq => exact ⟨hmiddle, heq⟩
  | case2 lo hi hhi hlt middle hmiddle _ hless ih =>
    -- all starts up to the middle are too small
    refine ih (by omega) (fun i h hi => ?_) habove
    exact Nat.lt_of_le_of_lt (getElem_le (Nat.le_of_lt_succ hi) hmiddle) hless
  | case3 lo hi hhi hlt middle hmiddle hne hless ih =>
    -- all starts from the middle on are too large
    refine ih (by omega) hbelow fun i h hi => ?_
    exact Nat.lt_of_lt_of_le (by omega) (getElem_le hi h)
  | case4 lo hi hhi hlt =>
    obtain rfl : lo = hi := by omega
    exact ⟨hhi, hbelow, habove⟩

theorem search_spec (offset : Nat) : index.Locates offset (index.search offset) := by
  refine index.searchWithin_spec offset 0 _ _ (Nat.zero_le _) (fun i _ hi => ?_) fun i h hi => ?_
  · exact absurd hi (Nat.not_lt_zero i)
  · exact absurd h (Nat.not_lt.mpr hi)

/-- No offset lies before the first line. -/
theorem search_ne_missing_zero (offset : Nat) : index.search offset ≠ .missing 0 := by
  intro hmissing
  have hlocates := index.search_spec offset
  rw [hmissing] at hlocates
  obtain ⟨hsize, hzero⟩ := Array.getElem?_eq_some_iff.mp index.first
  have hlater := hlocates.2.2 0 hsize (Nat.le_refl 0)
  rw [hzero] at hlater
  exact Nat.not_lt_zero _ hlater

/-- The line of an offset is the last one that starts at or before it. -/
theorem lineAt_spec (offset : Nat) : ∃ h : index.lineAt offset < index.starts.size,
    index.starts[index.lineAt offset] ≤ offset ∧
    ∀ i, ∀ h : i < index.starts.size, index.lineAt offset < i → offset < index.starts[i] := by
  have hlocates := index.search_spec offset
  have hfirst := index.search_ne_missing_zero offset
  cases hsearch : index.search offset with
  | found line =>
    have hat : index.lineAt offset = line := by rw [lineAt, hsearch]
    rw [hsearch] at hlocates
    obtain ⟨hline, heq⟩ := hlocates
    simp only [hat]
    refine ⟨hline, Nat.le_of_eq heq, fun i h hlater => ?_⟩
    exact heq ▸ getElem_lt hlater h
  | missing next =>
    have hat : index.lineAt offset = next - 1 := by rw [lineAt, hsearch]
    rw [hsearch] at hlocates hfirst
    obtain ⟨hsize, hbelow, habove⟩ := hlocates
    have hpos : next ≠ 0 := by
      rintro rfl
      exact hfirst rfl
    simp only [hat]
    refine ⟨by omega, Nat.le_of_lt (hbelow _ (by omega) (by omega)), fun i h hlater => ?_⟩
    exact habove i h (by omega)

/-- The number of an offset's line counts the lines that start at or before the offset. -/
theorem lineAt_add_one (offset : Nat) :
    index.lineAt offset + 1 = index.starts.toList.countP (· ≤ offset) := by
  obtain ⟨hline, hle, hlater⟩ := index.lineAt_spec offset
  have hfirst : (index.starts.toList.take (index.lineAt offset + 1)).countP (· ≤ offset) =
      index.lineAt offset + 1 := by
    rw [List.countP_eq_length.mpr, List.length_take, Array.length_toList]
    · omega
    · intro start hstart
      obtain ⟨i, hi, rfl⟩ := List.mem_take_iff_getElem.mp hstart
      rw [Array.length_toList] at hi
      have hi' : i ≤ index.lineAt offset := by omega
      simpa using Nat.le_trans (getElem_le hi' hline) hle
  have hrest : (index.starts.toList.drop (index.lineAt offset + 1)).countP (· ≤ offset) = 0 := by
    rw [List.countP_eq_zero]
    intro start hstart
    obtain ⟨i, hi, rfl⟩ := List.mem_drop_iff_getElem.mp hstart
    rw [Array.length_toList] at hi
    have := hlater (index.lineAt offset + 1 + i) (by omega) (by omega)
    simpa using this
  rw [← List.take_append_drop (index.lineAt offset + 1) index.starts.toList, List.countP_append,
    hfirst, hrest]

/-! ## The position of an offset -/

variable (bytes : List UInt8)

theorem mem_starts_ofBytes : start ∈ (ofBytes bytes).starts.toList ↔
    start = 0 ∨ ∃ i, bytes[i]? = some 10 ∧ start = i + 1 := by
  have hmem : start ∈ lineStartsFrom 0 bytes ↔ _ := mem_lineStartsFrom
  simp only [Nat.zero_add] at hmem
  exact List.mem_cons.trans (or_congr_right hmem)

/-- The line found for an offset starts where the text says. -/
theorem exists_lineStart (offset : Nat) : ∃ start,
    (ofBytes bytes).starts[(ofBytes bytes).lineAt offset]? = some start ∧
      LineStart bytes offset start := by
  obtain ⟨hline, hle, hlater⟩ := (ofBytes bytes).lineAt_spec offset
  refine ⟨_, Array.getElem?_eq_getElem hline, hle, ?_, fun i hi hoffset hnewline => ?_⟩
  · rcases (mem_starts_ofBytes bytes).mp (Array.getElem_mem_toList hline) with hzero | hbehind
    · exact .inl hzero
    · obtain ⟨i, hget, hstart⟩ := hbehind
      exact .inr (by rw [hstart, Nat.add_sub_cancel, hget])
  · -- a line would start behind that newline, later than the last one up to the offset
    obtain ⟨j, hj, hget⟩ := List.getElem_of_mem
      ((mem_starts_ofBytes bytes).mpr (.inr ⟨i, hnewline, rfl⟩))
    rw [Array.length_toList] at hj
    rw [Array.getElem_toList] at hget
    rcases Nat.lt_or_ge ((ofBytes bytes).lineAt offset) j with hlt | hge
    · have := hlater j hj hlt
      omega
    · have := getElem_le hge hline
      omega

/-- The line of an offset is told by the newlines before it. -/
theorem lineAt_ofBytes (offset : Nat) :
    (ofBytes bytes).lineAt offset = (bytes.take offset).count 10 := by
  have hcount := countP_lineStartsFrom 0 offset bytes
  have hline := (ofBytes bytes).lineAt_add_one offset
  rw [Nat.zero_add] at hcount
  rw [ofBytes, List.countP_cons_of_pos (by simp), hcount] at hline
  exact Nat.add_right_cancel hline

variable {bytes}

/-- Where lines can be counted, a position is the newlines before the offset and the distance from
the start of the line. -/
theorem position_ofBytes (hlines : bytes.count 10 + 1 < lineModulus)
    (hstart : (ofBytes bytes).starts[(ofBytes bytes).lineAt offset]? = some start) :
    (ofBytes bytes).position offset =
      ⟨1 + (bytes.take offset).count 10, min columnLimit (offset - start)⟩ := by
  have hcount : (bytes.take offset).count 10 ≤ bytes.count 10 :=
    (List.take_sublist offset bytes).count_le 10
  have hline : ((ofBytes bytes).lineAt offset + 1) % lineModulus =
      1 + (bytes.take offset).count 10 := by
    rw [lineAt_ofBytes, Nat.add_comm 1]
    exact Nat.mod_eq_of_lt (by omega)
  rw [position, hline, Array.getD_eq_getD_getElem?, hstart, Option.getD_some]

/-- No line is longer than the columns that are counted. -/
def FitsColumns (bytes : List UInt8) : Prop :=
  ∀ line, line <:+: bytes → 10 ∉ line → line.length ≤ columnLimit

/-- On lines that fit, no column is cut off. -/
theorem FitsColumns.sub_le (hfits : FitsColumns bytes) (hstart : LineStart bytes offset start)
    (hoffset : offset ≤ bytes.length) : offset - start ≤ columnLimit := by
  -- the piece of the line before the offset
  have hpiece : (bytes.take offset).drop start <:+: bytes :=
    (List.drop_suffix _ _).isInfix.trans (List.take_prefix _ _).isInfix
  have hlength : ((bytes.take offset).drop start).length = offset - start := by
    rw [List.length_drop, List.length_take, Nat.min_eq_left hoffset]
  rw [← hlength]
  refine hfits _ hpiece fun hmem => ?_
  obtain ⟨i, hi, hget⟩ := List.getElem_of_mem hmem
  rw [hlength] at hi
  refine hstart.unbroken (start + i) (Nat.le_add_right _ _) (by omega) ?_
  rw [List.getElem_drop, List.getElem_take] at hget
  rw [← hget]
  exact List.getElem?_eq_getElem _

end LineIndex

/-! ## Order -/

/-- Positions are ordered by line, then by column. -/
instance : LE Position :=
  ⟨fun a b => a.line < b.line ∨ a.line = b.line ∧ a.column ≤ b.column⟩

theorem Position.le_def {a b : Position} :
    a ≤ b ↔ a.line < b.line ∨ a.line = b.line ∧ a.column ≤ b.column :=
  Iff.rfl

/-- A range holds the positions between its ends. -/
theorem Range.contains_iff {range : Range} {pos : Position} :
    range.contains pos = true ↔ range.first ≤ pos ∧ pos ≤ range.last := by
  simp only [Range.contains, Position.le_def, Bool.and_eq_true, Bool.not_eq_true',
    Bool.and_eq_false_iff, decide_eq_true_eq, decide_eq_false_iff_not, beq_eq_false_iff_ne]
  omega

namespace LineIndex

variable {bytes : List UInt8}

/-- Positions come in the order of the offsets. -/
theorem position_le_iff (hlines : bytes.count 10 + 1 < lineModulus) (hfits : FitsColumns bytes)
    {a b : Nat} (ha : a ≤ bytes.length) (hb : b ≤ bytes.length) :
    (ofBytes bytes).position a ≤ (ofBytes bytes).position b ↔ a ≤ b := by
  obtain ⟨first, hfirst, hstartA⟩ := exists_lineStart bytes a
  obtain ⟨second, hsecond, hstartB⟩ := exists_lineStart bytes b
  rw [position_ofBytes hlines hfirst, position_ofBytes hlines hsecond, Position.le_def,
    Nat.min_eq_right (hfits.sub_le hstartA ha), Nat.min_eq_right (hfits.sub_le hstartB hb)]
  dsimp only
  -- equal lines start at the same place, and a later line has more newlines before it
  have hsame : (bytes.take a).count 10 = (bytes.take b).count 10 → first = second := by
    intro heq
    rw [lineAt_ofBytes] at hfirst hsecond
    exact Option.some.inj (hfirst.symm.trans (heq ▸ hsecond))
  have hmono : ∀ {m n : Nat}, m ≤ n → (bytes.take m).count 10 ≤ (bytes.take n).count 10 :=
    fun hmn => (List.take_sublist_take_left hmn).count_le 10
  have hle := hstartA.le
  have hle' := hstartB.le
  constructor
  · rintro (hlt | ⟨heq, hcolumn⟩)
    · refine Nat.le_of_not_lt fun hba => ?_
      have := hmono (Nat.le_of_lt hba)
      omega
    · obtain rfl := hsame (Nat.add_left_cancel heq)
      omega
  · intro hab
    rcases Nat.lt_or_eq_of_le (hmono hab) with hlt | heq
    · exact .inl (by omega)
    · obtain rfl := hsame heq
      exact .inr ⟨by omega, by omega⟩

/-- Every offset of a text whose lines can be counted, also one past its end, falls on a line that
the search finds; its position is one more than the newlines before it and its distance from the
start of that line, up to the last column. If moreover all lines fit, the range of a span holds the
positions of exactly the offsets from its start to its end. -/
theorem position_exact (bytes : List UInt8) (hlines : bytes.count 10 + 1 < lineModulus) :
    (∀ offset, (ofBytes bytes).search offset ≠ .missing 0 ∧
      ∃ start, (ofBytes bytes).starts[(ofBytes bytes).lineAt offset]? = some start ∧
        LineStart bytes offset start ∧
        (ofBytes bytes).position offset =
          ⟨1 + (bytes.take offset).count 10, min columnLimit (offset - start)⟩) ∧
    (FitsColumns bytes → ∀ span : Span, ∀ offset, span.start ≤ span.stop →
      span.stop ≤ bytes.length → offset ≤ bytes.length →
      (((ofBytes bytes).range span).contains ((ofBytes bytes).position offset) = true ↔
        span.start ≤ offset ∧ offset ≤ span.stop)) := by
  constructor
  · intro offset
    obtain ⟨start, hget, hstart⟩ := exists_lineStart bytes offset
    exact ⟨search_ne_missing_zero _ offset, start, hget, hstart, position_ofBytes hlines hget⟩
  · intro hfits span offset hspan hstop hoffset
    rw [Range.contains_iff]
    exact and_congr (position_le_iff hlines hfits (Nat.le_trans hspan hstop) hoffset)
      (position_le_iff hlines hfits hoffset hstop)

/-- A text of three lines, the second of them empty: an offset past its end counts for a line after
the last newline, and the range of the third line holds an offset in it and not the one before. -/
theorem position_exact_three_lines :
    let bytes : List UInt8 := [112, 10, 10, 118, 97, 114, 10]
    bytes.count 10 + 1 < lineModulus ∧ FitsColumns bytes ∧
    ((ofBytes bytes).position 40).line = 4 ∧
    ((ofBytes bytes).range ⟨3, 6⟩).contains ((ofBytes bytes).position 4) = true ∧
    ((ofBytes bytes).range ⟨3, 6⟩).contains ((ofBytes bytes).position 2) = false := by
  intro bytes
  have hlines : bytes.count 10 + 1 < lineModulus := by decide
  have hfits : FitsColumns bytes := fun line hline _ =>
    Nat.le_trans hline.length_le (by decide)
  obtain ⟨hposition, hrange⟩ := position_exact bytes hlines
  refine ⟨hlines, hfits, ?_, ?_, ?_⟩
  · obtain ⟨-, start, -, -, heq⟩ := hposition 40
    rw [heq]
    rfl
  · exact (hrange hfits ⟨3, 6⟩ 4 (by decide) (by decide) (by decide)).mpr (by decide)
  · refine Bool.eq_false_iff.mpr fun hcontains => ?_
    have hwithin := (hrange hfits ⟨3, 6⟩ 2 (by decide) (by decide) (by decide)).mp hcontains
    exact absurd hwithin.1 (by decide)

end LineIndex

end TxLifecycle
