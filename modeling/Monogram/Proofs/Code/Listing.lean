import Monogram.Code.Listing

/-! # Labels in a listing

The listing of code is read line by line.  A label stands in the line of the address that it belongs to,
and the instructions that lead there name it.  An address behind the end has a label that no line
carries, since the labels are numbered before it is known which lines there are.

* `textLines` — the lines of a text.
* `Carries`, `LeadsTo` — a label in front of a line, and the label that the remark at its end names.
* `Code.textLines_listing` — the lines of a listing.
* `Code.Listed` — how labels stand in the lines of a listing; `Code.listing_labelled`.
-/

namespace Monogram

/-- The lines of a text. -/
def textLines (text : String) : List String := (text.toList.splitOn '\n').map String.ofList

/-- The label with this number stands in front of the line, behind blanks and an address. -/
def Carries (line : String) (label : Nat) : Prop :=
  s!"L{label}:".toList <+: line.toList.dropWhile fun c => c == ' ' || c.isDigit

/-- The remark at the end of the line names the label with this number. -/
def LeadsTo (line : String) (label : Nat) : Prop := s!" (to L{label})".toList <:+ line.toList

/-! ## Texts of one line -/

theorem toString_text (s : String) : toString s = s := rfl

theorem toList_toString_nat (n : Nat) : (toString n).toList = Nat.toDigits 10 n := Nat.toList_repr

theorem digitChar_ne_newline (n : Nat) : Nat.digitChar n ≠ '\n' := by
  grind [Nat.digitChar]

theorem newline_not_mem_toDigits (base n : Nat) : '\n' ∉ Nat.toDigits base n := by
  suffices core : ∀ fuel n acc, '\n' ∉ acc → '\n' ∉ Nat.toDigitsCore base fuel n acc from
    core _ _ _ List.not_mem_nil
  intro fuel
  induction fuel with
  | zero => exact fun _ _ absent => absent
  | succ fuel ih =>
    intro n acc absent
    have longer : '\n' ∉ Nat.digitChar (n % base) :: acc :=
      List.not_mem_cons_of_ne_of_not_mem (digitChar_ne_newline _).symm absent
    rw [Nat.toDigitsCore]
    split
    · exact longer
    · exact ih _ _ longer

theorem newline_not_mem_int (i : Int) : '\n' ∉ (toString i).toList := by
  cases i with
  | ofNat n => exact Nat.toList_repr ▸ newline_not_mem_toDigits 10 n
  | negSucc n =>
    show '\n' ∉ ("-" ++ n.succ.repr).toList
    simp [newline_not_mem_toDigits]

theorem Quoted.newline_not_mem_escape (c : Char) : '\n' ∉ escape c := by
  unfold escape
  split
  case h_3 => decide
  case h_7 =>
    rename_i lineFeed _ _ _
    split
    · simp [hexadecimal, newline_not_mem_toDigits]
    · exact fun member => lineFeed (List.mem_singleton.1 member).symm
  all_goals decide

theorem Quoted.newline_not_mem_encode (text : String) : '\n' ∉ (Quoted.encode text).toList := by
  simp [encode, newline_not_mem_escape]

section Spelled

variable {digits : List Char} (plain : '\n' ∉ digits)
include plain

theorem Spelling.newline_not_mem_positional (s : Spelling) (k : Int) : '\n' ∉ s.positional digits k := by
  have front (n : Nat) : '\n' ∉ digits.take n := mt List.mem_of_mem_take plain
  have back (n : Nat) : '\n' ∉ digits.drop n := mt List.mem_of_mem_drop plain
  unfold positional
  dsimp only
  split
  · simp [plain]
  · split
    · split <;> simp [plain]
    · simp [front, back]

theorem Spelling.newline_not_mem_scientific (k : Int) : '\n' ∉ scientific digits k := by
  have front : '\n' ∉ digits.take 1 := mt List.mem_of_mem_take plain
  have back : '\n' ∉ digits.drop 1 := mt List.mem_of_mem_drop plain
  have power : '\n' ∉ (toString (k - 1)).toList := newline_not_mem_int (k - 1)
  simp only [scientific, List.mem_append, List.mem_cons, front, power, false_or, or_false]
  split
  · simp
  · simp only [List.mem_cons, back]
    decide

end Spelled

theorem Spelling.newline_not_mem_write (s : Spelling) (x : Number) : '\n' ∉ (s.write x).toList := by
  have decimal (d : Shortest.Decimal) : '\n' ∉ s.decimal d := by
    have plain := newline_not_mem_toDigits 10 d.digits
    unfold decimal
    dsimp only
    split
    · exact newline_not_mem_scientific plain _
    · exact s.newline_not_mem_positional plain _
  unfold write
  split
  · decide
  · split <;> decide
  · next negative m q _ =>
    rw [String.toList_ofList]
    have magnitude : '\n' ∉ if m = 0 then (if s.pointZero then ['0', '.', '0'] else ['0'])
        else s.decimal (Shortest.shortest m q) := by
      split
      · split <;> decide
      · exact decimal _
    cases negative with
    | true => exact List.not_mem_cons_of_ne_of_not_mem (by decide) magnitude
    | false => exact magnitude

theorem Constant.newline_not_mem_listing (c : Constant) : '\n' ∉ c.listing.toList := by
  unfold listing
  cases c with
  | number value => simp [toString_text, Spelling.newline_not_mem_write]
  | string text => simp [toString_text, Quoted.newline_not_mem_encode]
  | classRef id => simp [toString_text, newline_not_mem_toDigits]
  | nil | system => decide

theorem Instruction.newline_not_mem_listing (i : Instruction) : '\n' ∉ i.listing.toList := by
  unfold listing
  cases i with
  | push c => simp [toString_text, c.newline_not_mem_listing]
  | arithmetic op | compare op => cases op <;> decide
  | loadSlot n | storeSlot n | jump n | jumpIfFalse n | openHandler n | print n | buildList n
  | buildMap n => simp [toString_text, newline_not_mem_toDigits]
  | loadName name | storeName name | loadField name | storeField name | loadStatic name
  | storeStatic name => simp [toString_text, Quoted.newline_not_mem_encode]
  | call name n | construct name n =>
    simp [toString_text, Quoted.newline_not_mem_encode, newline_not_mem_toDigits]
  | _ => decide

namespace Code

variable {targets : List Nat} {address : Nat}

theorem newline_not_mem_lineHead (targets : List Nat) (address : Nat) :
    '\n' ∉ (lineHead targets address).toList := by
  have column : '\n' ∉ (labelColumn targets address).toList := by
    unfold labelColumn
    split
    · simp [toString_text, newline_not_mem_toDigits]
    · decide
  simp [lineHead, alignRight, toString_text, column, newline_not_mem_toDigits]

theorem newline_not_mem_line (targets : List Nat) (address : Nat) (i : Instruction) :
    '\n' ∉ (line targets address i).toList := by
  have remark : '\n' ∉ (targetRemark targets i).toList := by
    unfold targetRemark
    split
    · split <;> simp [toString_text, newline_not_mem_toDigits]
    · decide
  simp [line, toString_text, newline_not_mem_lineHead, i.newline_not_mem_listing, remark]

theorem newline_not_mem_lines (targets : List Nat) (address : Nat) (code : List Instruction) :
    ∀ l ∈ lines targets address code, '\n' ∉ l.toList := by
  induction code generalizing address with
  | nil =>
    unfold lines
    split <;> simp [newline_not_mem_lineHead]
  | cons i rest ih =>
    rw [lines, List.forall_mem_cons]
    exact ⟨newline_not_mem_line targets address i, ih _⟩

/-- The lines in front of the instructions. -/
def heading (c : Code) : List String :=
  let count := c.maxOperands
  ["Code \x7b", s!"  max_stack_size: {count}", "  instructions:"]

/-- The lines of a listing are those it is put together from. -/
theorem textLines_listing (c : Code) : textLines c.listing
    = c.heading ++ lines (Code.targets c.instructions.toList) 0 c.instructions.toList ++ ["\x7d"] := by
  have single : ∀ l ∈ c.heading ++ lines (Code.targets c.instructions.toList) 0 c.instructions.toList
      ++ ["\x7d"], '\n' ∉ l.toList := by
    simp only [List.forall_mem_append]
    refine ⟨⟨?_, newline_not_mem_lines _ _ _⟩, by decide⟩
    simp [heading, toString_text, newline_not_mem_toDigits]
  have whole : c.listing = String.intercalate "\n" (c.heading
      ++ lines (Code.targets c.instructions.toList) 0 c.instructions.toList ++ ["\x7d"]) := rfl
  have back (l : String) : (String.ofList ∘ String.toList) l = l := String.ofList_toList
  rw [textLines, whole, String.toList_intercalate]
  refine (congrArg _ (List.splitOn_intercalate '\n' ?_ ?_)).trans ?_
  · simpa only [List.forall_mem_map] using single
  · simp
  · rw [List.map_map, List.map_congr_left fun l _ => back l, List.map_id']

end Code

/-! ## Numbers of labels -/

theorem mem_insertSorted {m n : Nat} {l : List Nat} : m ∈ insertSorted n l ↔ m = n ∨ m ∈ l := by
  induction l with
  | nil => exact List.mem_cons
  | cons first rest ih =>
    unfold insertSorted
    split
    · exact List.mem_cons
    · split
      · next same => simp [same]
      · rw [List.mem_cons, ih, List.mem_cons, or_left_comm]

theorem pairwise_insertSorted {n : Nat} {l : List Nat} (sorted : l.Pairwise (· < ·)) :
    (insertSorted n l).Pairwise (· < ·) := by
  induction l with
  | nil => exact List.pairwise_singleton _ _
  | cons first rest ih =>
    obtain ⟨least, sorted'⟩ := List.pairwise_cons.1 sorted
    unfold insertSorted
    split
    · next less =>
      refine List.pairwise_cons.2 ⟨fun m member => ?_, sorted⟩
      obtain rfl | later := List.mem_cons.1 member
      · exact less
      · exact Nat.lt_trans less (least m later)
    · split
      · exact sorted
      · refine List.pairwise_cons.2 ⟨fun m member => ?_, ih sorted'⟩
        obtain rfl | later := mem_insertSorted.1 member
        · omega
        · exact least m later

/-- The numbers up to a bound stand in front of the others. -/
theorem getElem?_filter_le {l : List Nat} (sorted : l.Pairwise (· < ·)) {bound k n : Nat} :
    (l.filter (· ≤ bound))[k]? = some n ↔ l[k]? = some n ∧ n ≤ bound := by
  induction l generalizing k with
  | nil => simp
  | cons first rest ih =>
    obtain ⟨least, sorted⟩ := List.pairwise_cons.1 sorted
    by_cases within : first ≤ bound
    · rw [List.filter_cons_of_pos (by simpa using within)]
      cases k with
      | zero =>
        simp only [List.getElem?_cons_zero, Option.some.injEq]
        exact ⟨fun same => ⟨same, same ▸ within⟩, And.left⟩
      | succ k => exact ih sorted
    · -- All numbers behind one that is beyond the bound are beyond it as well.
      have beyond : ∀ m ∈ first :: rest, ¬ m ≤ bound := by
        refine List.forall_mem_cons.2 ⟨within, fun m member => ?_⟩
        have := least m member
        omega
      rw [List.filter_eq_nil_iff.2 fun m member => by simpa using beyond m member]
      refine iff_of_false (by simp) fun ⟨here, inside⟩ => ?_
      exact beyond n (List.mem_of_getElem? here) inside

namespace Code

theorem mem_targets {code : List Instruction} {target : Nat} :
    target ∈ targets code ↔ ∃ i ∈ code, i.target? = some target := by
  rw [← List.mem_filterMap, targets]
  induction code.filterMap Instruction.target? with
  | nil => rfl
  | cons first rest ih => rw [List.foldr_cons, mem_insertSorted, ih, List.mem_cons]

theorem targets_sorted (code : List Instruction) : (targets code).Pairwise (· < ·) := by
  rw [targets]
  induction code.filterMap Instruction.target? with
  | nil => exact .nil
  | cons first rest ih => exact pairwise_insertSorted ih

theorem label?_eq_some_iff {targets : List Nat} (sorted : targets.Pairwise (· < ·)) {address k : Nat} :
    label? targets address = some k ↔ targets[k]? = some address := by
  rw [label?, List.idxOf?_eq_some_iff, List.getElem?_eq_some_iff]
  refine ⟨fun ⟨inside, here, _⟩ => ⟨inside, here⟩, fun ⟨inside, here⟩ => ⟨inside, here, ?_⟩⟩
  intro j before same
  have less := List.pairwise_iff_getElem.1 sorted j k (Nat.lt_trans before inside) inside before
  omega

end Code

/-! ## Labels in lines -/

/-- Digits end where another character stands. -/
theorem digits_eq_of_append {digits digits' back back' : List Char} {c c' : Char}
    (all : ∀ d ∈ digits, d.isDigit = true) (all' : ∀ d ∈ digits', d.isDigit = true)
    (other : c.isDigit = false) (other' : c'.isDigit = false)
    (same : digits ++ c :: back = digits' ++ c' :: back') : digits = digits' := by
  have taken := congrArg (List.takeWhile Char.isDigit) same
  rw [List.takeWhile_append_of_pos all, List.takeWhile_append_of_pos all'] at taken
  simpa [other, other'] using taken

theorem isDigit_of_mem_toDigits {n : Nat} : ∀ c ∈ Nat.toDigits 10 n, c.isDigit = true := fun _ member =>
  Nat.isDigit_of_mem_toDigits (by decide) (by decide) member

theorem toDigits_injective {m n : Nat} (same : Nat.toDigits 10 m = Nat.toDigits 10 n) : m = n := by
  have read := congrArg (Nat.ofDigitChars 10 · 0) same
  simpa only [Nat.ofDigitChars_toDigits (show 1 < 10 by decide) (Nat.le_refl 10)] using read

/-- A remark names one label. -/
theorem leadsTo_iff {line : String} {front : List Char} {k : Nat}
    (whole : line.toList = front ++ s!" (to L{k})".toList) (j : Nat) : LeadsTo line j ↔ j = k := by
  constructor
  · rintro ⟨front', same⟩
    rw [whole] at same
    -- Read from the end, the digits stand between the bracket and the letter.
    have mirrored : (Nat.toDigits 10 j).reverse ++ 'L' :: (" (to ".toList.reverse ++ front'.reverse)
        = (Nat.toDigits 10 k).reverse ++ 'L' :: (" (to ".toList.reverse ++ front.reverse) := by
      simpa [toString_text] using congrArg List.reverse same
    have all (n : Nat) : ∀ d ∈ (Nat.toDigits 10 n).reverse, d.isDigit = true := fun d member =>
      isDigit_of_mem_toDigits d (List.mem_reverse.1 member)
    have digits := digits_eq_of_append (all j) (all k) (by decide) (by decide) mirrored
    exact toDigits_injective (List.reverse_inj.1 digits)
  · rintro rfl
    exact ⟨front, whole.symm⟩

/-- What stands in front of labels. -/
def isMargin (c : Char) : Bool := c == ' ' || c.isDigit

theorem isMargin_of_digit {n : Nat} : ∀ c ∈ Nat.toDigits 10 n, isMargin c = true := fun c member => by
  rw [isMargin, isDigit_of_mem_toDigits c member, Bool.or_true]

/-- A line that shows a label carries it and no other. -/
theorem carries_iff {line : String} {margin back : List Char} {k : Nat}
    (all : ∀ c ∈ margin, isMargin c = true) (whole : line.toList = margin ++ (s!"L{k}:".toList ++ back))
    (j : Nat) : Carries line j ↔ j = k := by
  have shown : line.toList.dropWhile isMargin = 'L' :: (Nat.toDigits 10 k ++ ':' :: back) := by
    rw [whole, List.dropWhile_append_of_pos all]
    simp [toString_text, isMargin]
  have label : s!"L{j}:".toList = 'L' :: (Nat.toDigits 10 j ++ [':']) := by simp [toString_text]
  show _ <+: line.toList.dropWhile isMargin ↔ _
  rw [shown, label, List.cons_prefix_cons, and_iff_right rfl]
  constructor
  · rintro ⟨rest, same⟩
    rw [List.append_assoc] at same
    exact toDigits_injective (digits_eq_of_append isDigit_of_mem_toDigits isDigit_of_mem_toDigits
      (by decide) (by decide) same)
  · rintro rfl
    exact ⟨back, by simp⟩

/-- A line carries no label whose text begins with two letters, or with one that is none of a label. -/
theorem not_carries {line : String} {margin back : List Char} {c : Char}
    (all : ∀ c ∈ margin, isMargin c = true) (whole : line.toList = margin ++ c :: back)
    (other : isMargin c = false) (unlabelled : c ≠ 'L' ∨ ∃ d rest, back = d :: rest ∧ d.isDigit = false)
    (k : Nat) : ¬ Carries line k := by
  have shown : line.toList.dropWhile isMargin = c :: back := by
    rw [whole, List.dropWhile_append_of_pos all, List.dropWhile_cons_of_neg (by simpa using other)]
  have label : s!"L{k}:".toList = 'L' :: (Nat.toDigits 10 k ++ [':']) := by simp [toString_text]
  show ¬ _ <+: line.toList.dropWhile isMargin
  rw [shown, label, List.cons_prefix_cons]
  rintro ⟨rfl, digits⟩
  obtain other | ⟨d, rest, rfl, letter⟩ := unlabelled
  · exact other rfl
  · -- A number has a digit, with which it begins.
    obtain ⟨first, more, number⟩ := List.exists_cons_of_ne_nil (Nat.toDigits_ne_nil (n := k) (b := 10))
    have digit := isDigit_of_mem_toDigits first (number ▸ List.mem_cons_self)
    rw [number, List.cons_append, List.cons_prefix_cons] at digits
    rw [digits.1, letter] at digit
    cases digit

/-- The text of an instruction begins with two letters. -/
theorem Instruction.listing_head (i : Instruction) : ∃ c d rest, i.listing.toList = c :: d :: rest
    ∧ isMargin c = false ∧ d.isDigit = false := by
  unfold listing
  cases i with
  | arithmetic op | compare op => cases op <;> exact ⟨_, _, _, rfl, by decide, by decide⟩
  | _ =>
    simp only [toString_text, String.toList_append]
    exact ⟨_, _, _, rfl, by decide, by decide⟩

/-! ## Lines of code -/

namespace Code

theorem lineHead_toList (targets : List Nat) (address : Nat) : ∃ margin,
    (∀ c ∈ margin, isMargin c = true)
      ∧ (lineHead targets address).toList = margin ++ (labelColumn targets address).toList := by
  simp only [lineHead, alignRight, toString_text, String.toList_append, String.toList_ofList,
    ← List.append_assoc, toList_toString_nat]
  refine ⟨_, ?_, rfl⟩
  simp only [List.forall_mem_append]
  refine ⟨⟨⟨⟨by simp [isMargin], fun c member => ?_⟩, isMargin_of_digit⟩, by simp [isMargin]⟩,
    fun c member => ?_⟩
  · rw [List.eq_of_mem_replicate member]
    rfl
  · rw [List.eq_of_mem_replicate member]
    rfl

/-- A line carries the label of its address, and none where there is no label. -/
theorem carries_line (targets : List Nat) (address : Nat) (i : Instruction) (k : Nat) :
    Carries (line targets address i) k ↔ label? targets address = some k := by
  obtain ⟨margin, all, head⟩ := lineHead_toList targets address
  have whole : (line targets address i).toList = margin ++ ((labelColumn targets address).toList
      ++ ([' ', ' '] ++ (i.listing.toList ++ (targetRemark targets i).toList))) := by
    rw [← List.append_assoc, ← head]
    simp [line, toString_text]
  unfold labelColumn at whole
  cases label : label? targets address with
  | some n =>
    rw [label] at whole
    rw [carries_iff all whole, Option.some.injEq, eq_comm]
  | none =>
    obtain ⟨c, d, rest, text, other, letter⟩ := i.listing_head
    have text : (line targets address i).toList
        = margin ++ [' ', ' '] ++ c :: d :: (rest ++ (targetRemark targets i).toList) := by
      rw [whole, label, text]
      simp
    have blanks : ∀ c ∈ margin ++ [' ', ' '], isMargin c = true :=
      List.forall_mem_append.2 ⟨all, by simp [isMargin]⟩
    exact iff_of_false (not_carries blanks text other (.inr ⟨d, _, rfl, letter⟩) k) nofun

theorem carries_lineHead {targets : List Nat} {address : Nat}
    (labelled : (label? targets address).isSome) (k : Nat) :
    Carries (lineHead targets address) k ↔ label? targets address = some k := by
  obtain ⟨margin, all, head⟩ := lineHead_toList targets address
  obtain ⟨n, label⟩ := Option.isSome_iff_exists.1 labelled
  have whole : (lineHead targets address).toList = margin ++ (s!"L{n}:".toList ++ []) := by
    rw [head, labelColumn, label, List.append_nil]
  rw [carries_iff all whole, label, Option.some.injEq, eq_comm]

/-- Of the lines of code that of an address carries its label, the end included. -/
theorem carries_lines (targets : List Nat) (address : Nat) (code : List Instruction) (n k : Nat) :
    (∃ line, (lines targets address code)[n]? = some line ∧ Carries line k) ↔
      n ≤ code.length ∧ label? targets (address + n) = some k := by
  induction code generalizing address n with
  | nil =>
    rw [lines]
    cases n with
    | zero =>
      split
      · next labelled => simp [carries_lineHead labelled]
      · next unlabelled => simp [Option.not_isSome_iff_eq_none.1 unlabelled]
    | succ n => split <;> simp
  | cons i rest ih =>
    rw [lines]
    cases n with
    | zero => simp [carries_line]
    | succ n =>
      rw [List.getElem?_cons_succ, ih, List.length_cons, Nat.succ_le_succ_iff, Nat.add_assoc, Nat.add_comm 1 n]

theorem getElem?_lines {targets : List Nat} {address : Nat} {code : List Instruction} {n : Nat}
    {i : Instruction} (here : code[n]? = some i) :
    (lines targets address code)[n]? = some (line targets (address + n) i) := by
  induction code generalizing address n with
  | nil => cases here
  | cons first rest ih =>
    rw [lines]
    cases n with
    | zero =>
      obtain rfl := Option.some.inj here
      rfl
    | succ n =>
      rw [List.getElem?_cons_succ, ih here, Nat.add_assoc, Nat.add_comm 1 n]

theorem length_lines (targets : List Nat) (address : Nat) (code : List Instruction) :
    (lines targets address code).length
      = code.length + if (label? targets (address + code.length)).isSome then 1 else 0 := by
  induction code generalizing address with
  | nil =>
    rw [lines]
    split <;> next labelled => simp [labelled]
  | cons i rest ih =>
    rw [lines, List.length_cons, List.length_cons, ih, Nat.add_right_comm, Nat.add_assoc address,
      Nat.add_comm 1]

/-- The line of an instruction shows it behind its address, and in front of the label that it leads to. -/
theorem leadsTo_line {targets : List Nat} {address target k : Nat} {i : Instruction}
    (jumps : i.target? = some target) (label : label? targets target = some k) (j : Nat) :
    LeadsTo (line targets address i) j ↔ j = k := by
  have remark : targetRemark targets i = s!" (to L{k})" := by
    simp only [targetRemark, jumps, label]
  have whole : (line targets address i).toList
      = (lineHead targets address).toList ++ ("  ".toList ++ i.listing.toList) ++ s!" (to L{k})".toList := by
    simp [line, toString_text, remark]
  exact leadsTo_iff whole j

/-! ## Lines of a listing -/

/-- The line of an address: three lines stand in front of the instructions. -/
def lineOf (address : Nat) : Nat := address + 3

/-- The lines of a listing of `c`, in which the lines of the labels are `places`. -/
structure Listed (c : Code) (lines : List String) (places : List Nat) : Prop where
  /-- The lines of the instructions lie behind one another, each with its address. -/
  shown : ∀ address i, c.instructions[address]? = some i → ∃ label remark : String,
    let number := alignRight 4 (toString address)
    lines[lineOf address]? = some s!"    {number} {label}  {i.listing}{remark}"
  /-- Behind them stand a line for the end, if it has a label, and the closing bracket. -/
  length : lines.length = lineOf c.size + (if lineOf c.size ∈ places then 1 else 0) + 1
  /-- A label stands in its place and nowhere else. -/
  carried : ∀ n k, (∃ line, lines[n]? = some line ∧ Carries line k) ↔ places[k]? = some n
  ordered : places.Pairwise (· < ·)
  /-- Some instruction leads to each label. -/
  used : ∀ k < places.length, ∃ address i target line, c.instructions[address]? = some i
    ∧ i.target? = some target ∧ places[k]? = some (lineOf target)
    ∧ lines[lineOf address]? = some line ∧ LeadsTo line k
  /-- An instruction that refers to an address leads to the label in the line of the address, and to
  one that has no line where the address lies behind the end. -/
  leads : ∀ address i target, c.instructions[address]? = some i → i.target? = some target →
    ∃ line k, lines[lineOf address]? = some line ∧ (∀ j, LeadsTo line j ↔ j = k)
      ∧ (target ≤ c.size → places[k]? = some (lineOf target))
      ∧ (c.size < target → places.length ≤ k)

/-- The lines around the code carry no label. -/
theorem not_carries_outer (c : Code) (k : Nat) : ∀ l ∈ c.heading ++ ["\x7d"], ¬ Carries l k := by
  have bare (line : String) (margin back : List Char) (letter : Char)
      (whole : line.toList = margin ++ letter :: back) (all : ∀ d ∈ margin, isMargin d = true)
      (other : isMargin letter = false ∧ letter ≠ 'L') : ¬ Carries line k :=
    not_carries all whole other.1 (.inl other.2) k
  have counted : (s!"  max_stack_size: {c.maxOperands}").toList
      = [' ', ' '] ++ 'm' :: ("ax_stack_size: ".toList ++ (toString c.maxOperands).toList) :=
    String.toList_append
  have margin : ∀ d ∈ [' ', ' '], isMargin d = true := by simp [isMargin]
  simp only [heading, List.cons_append, List.nil_append, List.forall_mem_cons]
  exact ⟨bare _ [] _ 'C' rfl nofun (by decide), bare _ _ _ 'm' counted margin (by decide),
    bare _ _ _ 'i' rfl margin (by decide), bare _ [] _ '\x7d' rfl nofun (by decide), nofun⟩

/-- What stands between other lines, which do not have the property. -/
theorem exists_getElem?_between {P : String → Prop} {front body back : List String}
    (none : ∀ l ∈ front ++ back, ¬ P l) (n : Nat) :
    (∃ line, (front ++ body ++ back)[n]? = some line ∧ P line) ↔
      ∃ m, n = front.length + m ∧ ∃ line, body[m]? = some line ∧ P line := by
  constructor
  · rintro ⟨line, here, holds⟩
    rw [List.append_assoc] at here
    by_cases early : n < front.length
    · rw [List.getElem?_append_left early] at here
      exact absurd holds (none line (List.mem_append_left _ (List.mem_of_getElem? here)))
    · rw [List.getElem?_append_right (by omega)] at here
      by_cases inside : n - front.length < body.length
      · rw [List.getElem?_append_left inside] at here
        exact ⟨_, by omega, line, here, holds⟩
      · rw [List.getElem?_append_right (by omega)] at here
        exact absurd holds (none line (List.mem_append_right _ (List.mem_of_getElem? here)))
  · rintro ⟨m, rfl, line, here, holds⟩
    have inside := (List.getElem?_eq_some_iff.1 here).1
    refine ⟨line, ?_, holds⟩
    rw [List.append_assoc, List.getElem?_append_right (by omega), Nat.add_sub_cancel_left,
      List.getElem?_append_left inside, here]

theorem lineOf_injective {address address' : Nat} (same : lineOf address = lineOf address') :
    address = address' :=
  Nat.add_right_cancel same

section Listing

variable (c : Code)

/-- The lines of the labels: those of the addresses referred to, as far as these have a line. -/
def places : List Nat := ((targets c.instructions.toList).filter (· ≤ c.size)).map lineOf

theorem getElem?_places {k n : Nat} : c.places[k]? = some n ↔
    ∃ target ≤ c.size, n = lineOf target ∧ label? (targets c.instructions.toList) target = some k := by
  simp only [places, List.getElem?_map, Option.map_eq_some_iff,
    getElem?_filter_le (targets_sorted _), label?_eq_some_iff (targets_sorted _)]
  exact ⟨fun ⟨target, ⟨here, inside⟩, line⟩ => ⟨target, inside, line.symm, here⟩,
    fun ⟨target, inside, line, here⟩ => ⟨target, ⟨here, inside⟩, line.symm⟩⟩

theorem getElem?_places_lineOf {k target : Nat} : c.places[k]? = some (lineOf target) ↔
    label? (targets c.instructions.toList) target = some k ∧ target ≤ c.size := by
  rw [getElem?_places]
  constructor
  · rintro ⟨target, inside, line, here⟩
    obtain rfl := lineOf_injective line
    exact ⟨here, inside⟩
  · exact fun ⟨here, inside⟩ => ⟨target, inside, rfl, here⟩

/-- What an instruction refers to has a label. -/
theorem exists_label {address target : Nat} {i : Instruction} (here : c.instructions[address]? = some i)
    (jumps : i.target? = some target) : ∃ k, label? (targets c.instructions.toList) target = some k := by
  have member := mem_targets.2 ⟨i, Array.mem_toList_iff.2 (Array.mem_of_getElem? here), jumps⟩
  obtain ⟨k, here⟩ := List.getElem?_of_mem member
  exact ⟨k, (label?_eq_some_iff (targets_sorted _)).2 here⟩

variable {c} in
theorem getElem?_listing {address : Nat} {i : Instruction} (here : c.instructions[address]? = some i) :
    (textLines c.listing)[lineOf address]?
      = some (line (targets c.instructions.toList) address i) := by
  have there : c.instructions.toList[address]? = some i := by rwa [Array.getElem?_toList]
  have shown : (lines (targets c.instructions.toList) 0 c.instructions.toList)[address]?
      = some (line (targets c.instructions.toList) (0 + address) i) := getElem?_lines there
  rw [Nat.zero_add] at shown
  obtain ⟨inside, -⟩ := List.getElem?_eq_some_iff.1 shown
  have front : c.heading.length ≤ lineOf address := Nat.le_add_left 3 address
  rw [textLines_listing, List.append_assoc, List.getElem?_append_right front]
  exact (List.getElem?_append_left inside).trans shown

/-- Labels of a listing stand in the lines of the addresses that instructions refer to, as far as these
have lines. -/
theorem listing_labelled : ∃ places, c.Listed (textLines c.listing) places := by
  refine ⟨c.places, ?_, ?_, ?_, ?_, ?_, ?_⟩
  · intro address i here
    exact ⟨_, _, getElem?_listing here⟩
  · have ending : lineOf c.size ∈ c.places
        ↔ (label? (targets c.instructions.toList) (0 + c.instructions.toList.length)).isSome := by
      simp only [List.mem_iff_getElem?, getElem?_places_lineOf, Option.isSome_iff_exists, Nat.zero_add,
        Nat.le_refl, and_true]
      rfl
    have before : c.heading.length + c.instructions.toList.length = lineOf c.size := Nat.add_comm 3 _
    simp only [textLines_listing, List.length_append, length_lines, ending, ← Nat.add_assoc, before]
    rfl
  · intro n k
    rw [textLines_listing, exists_getElem?_between (c.not_carries_outer k), getElem?_places]
    refine exists_congr fun m => ?_
    rw [carries_lines, Nat.zero_add, lineOf, Nat.add_comm m]
    exact and_left_comm
  · refine List.Pairwise.map _ (fun a b less => ?_) ((targets_sorted _).filter _)
    exact Nat.add_lt_add_right less 3
  · intro k inside
    obtain ⟨target, within, place, label⟩ := (c.getElem?_places).1 (List.getElem?_eq_getElem inside)
    have member := List.mem_of_getElem? ((label?_eq_some_iff (targets_sorted _)).1 label)
    obtain ⟨i, there, jumps⟩ := mem_targets.1 member
    obtain ⟨address, here⟩ := List.getElem?_of_mem there
    rw [Array.getElem?_toList] at here
    exact ⟨address, i, target, _, here, jumps, c.getElem?_places_lineOf.2 ⟨label, within⟩,
      getElem?_listing here, (leadsTo_line jumps label k).2 rfl⟩
  · intro address i target here jumps
    obtain ⟨k, label⟩ := c.exists_label here jumps
    refine ⟨_, k, getElem?_listing here, leadsTo_line jumps label,
      fun inside => c.getElem?_places_lineOf.2 ⟨label, inside⟩, fun behind => ?_⟩
    -- A place of this number would be the line of the same target.
    refine Nat.le_of_not_lt fun inside => ?_
    obtain ⟨target', within, -, label'⟩ := c.getElem?_places.1 (List.getElem?_eq_getElem inside)
    rw [label?_eq_some_iff (targets_sorted _)] at label label'
    obtain rfl := Option.some.inj (label.symm.trans label')
    omega

end Listing

/-- A jump behind the end does not show the address that it leads to. -/
theorem listing_hides_address : ¬ ∀ (c : Code) (address : Nat) (i : Instruction) (target : Nat)
    (line : String), c.instructions[address]? = some i → i.target? = some target → c.size < target →
    (textLines c.listing)[lineOf address]? = some line →
    s!" (to @{target})".toList <:+ line.toList := by
  intro shows
  have line : (textLines (Code.listing ⟨#[.jump 5], 0⟩))[lineOf 0]?
      = some "       0       Jump(5) (to L0)" := by decide
  have suffix := shows ⟨#[.jump 5], 0⟩ 0 (.jump 5) 5 _ rfl rfl (by decide) line
  revert suffix
  decide

end Code

end Monogram
