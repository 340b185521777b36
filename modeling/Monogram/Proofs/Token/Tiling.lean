import Mathlib.Data.List.TakeWhile
import Monogram.Token.Scan

/-! # A text is cut into pieces

The pieces of a text lie behind one another from its first character to its last.  Each token and each
diagnostic keeps the place of its piece, and what has neither is a header line, blank or a comment.

* `Piece.Shape` — what a piece looks like, and what may stand behind it.
* `Tiling` — a text cut into pieces, with the items that they leave; `Scan.items_tiling`.
* `Stands` — a stretch of a text, on the line on which it starts.
* `Scan.Covers`, `Scan.ofText_covers` — what a scan is of its text.
-/

namespace Monogram

/-! ## Bytes and characters -/

theorem byteCount_ofList (text : List Char) : (String.ofList text).utf8ByteSize = byteCount text := by
  induction text with
  | nil => rfl
  | cons c rest ih =>
    rw [byteCount_cons, ← ih, ← List.singleton_append, String.ofList_append,
      String.utf8ByteSize_append, ← String.singleton_eq_ofList, String.utf8ByteSize_singleton]

theorem byteCount_toList (s : String) : byteCount s.toList = s.utf8ByteSize := by
  rw [← byteCount_ofList, String.ofList_toList]

@[simp] theorem Place.after_nil (p : Place) : p.after [] = p := rfl

theorem Place.after_append (p : Place) (front back : List Char) :
    p.after (front ++ back) = (p.after front).after back := by
  simp only [Place.after, byteCount_append, newlineCount_append, Nat.add_assoc]

/-- A text cut behind its first characters with a property. -/
theorem cut_takeWhile (p : Char → Bool) (text : List Char) :
    text.take (text.takeWhile p).length = text.takeWhile p
      ∧ text.drop (text.takeWhile p).length = text.dropWhile p := by
  induction text with
  | nil => exact ⟨rfl, rfl⟩
  | cons c rest ih => by_cases holds : p c <;> simp [holds, ih]

/-- Nothing is left behind the characters other than `stop`, or it starts with `stop`. -/
theorem dropWhile_ne (stop : Char) (text : List Char) :
    text.dropWhile (· != stop) = [] ∨ (text.dropWhile (· != stop)).head? = some stop := by
  induction text with
  | nil => exact .inl rfl
  | cons c rest ih =>
    by_cases here : c = stop
    · simp [here]
    · simpa [here] using ih

theorem not_mem_takeWhile_ne (stop : Char) (text : List Char) : stop ∉ text.takeWhile (· != stop) :=
  fun member => by simpa using List.mem_takeWhile_imp member

/-! ## Pieces -/

/-- What separates tokens in front of `back`: blanks, or a comment up to the end of its line. -/
def Separating (gap back : List Char) : Prop :=
  (∀ c ∈ gap, isGap c = true)
    ∨ ∃ body, gap = '/' :: '/' :: body ∧ '\n' ∉ body ∧ (back = [] ∨ back.head? = some '\n')

/-- The text of a piece, and what stands behind it. -/
inductive Piece.Shape : Piece → List Char → List Char → Prop where
  | gap {gap back : List Char} (separates : Separating gap back) : Shape .gap gap back
  | token {kind : Token.Kind} {lexeme back : List Char} : Shape (.token kind) lexeme back
  /-- A quote that nothing closes, and all that is left. -/
  | unterminated {body : List Char} (unclosed : '"' ∉ body) : Shape .unterminated ('"' :: body) []
  | unexpected {c : Char} {back : List Char} : Shape .unexpected [c] back

/-- The piece at a place has its shape. -/
theorem pieceAt_shape (c : Char) (rest : List Char) :
    (pieceAt c rest).1.Shape (c :: rest.take (pieceAt c rest).2) (rest.drop (pieceAt c rest).2) := by
  fun_cases pieceAt c rest with
  | case1 blank =>
    refine .gap (.inl (List.forall_mem_cons.2 ⟨blank, fun d member => ?_⟩))
    rw [(cut_takeWhile _ _).1] at member
    exact List.mem_takeWhile_imp member
  | case2 _ slashes =>
    simp only [Bool.and_eq_true, decide_eq_true_eq] at slashes
    obtain ⟨rfl, head⟩ := slashes
    obtain ⟨body, rfl⟩ := List.head?_eq_some_iff.1 head
    rw [(cut_takeWhile _ _).1, (cut_takeWhile _ _).2]
    refine .gap (.inr ⟨body.takeWhile (· != '\n'), rfl, not_mem_takeWhile_ne _ _, ?_⟩)
    exact dropWhile_ne '\n' body
  | case3 | case4 | case5 | case7 => exact .token
  | case6 _ _ _ _ quote body unclosed =>
    have all : rest.takeWhile (· != '"') = rest := by
      refine (List.takeWhile_prefix _).eq_of_length ?_
      have := (List.takeWhile_prefix (· != '"') (l := rest)).length_le
      simp only [body] at unclosed
      omega
    simp only [body, all, List.take_length, List.drop_length]
    subst quote
    exact .unterminated fun member => by
      rw [← all] at member
      exact not_mem_takeWhile_ne _ _ member
  | case8 => exact .unexpected

/-! ## The pieces of a text -/

/-- A text that begins at a place, cut into pieces, and the items that these leave. -/
inductive Tiling : Place → List Char → List Scan.Item → Prop where
  | nil {p : Place} : Tiling p [] []
  | cons {p : Place} {piece : Piece} {lexeme back : List Char} {items : List Scan.Item}
      (nonempty : lexeme ≠ []) (shape : piece.Shape lexeme back)
      (others : Tiling (p.after lexeme) back items) :
      Tiling p (lexeme ++ back) ((piece.item? lexeme p).toList ++ items)

theorem Scan.items_tiling (p : Place) (text : List Char) : Tiling p text (Scan.items p text) := by
  fun_induction Scan.items p text with
  | case1 => exact .nil
  | case2 p c rest piece extent found lexeme ih =>
    have shape := pieceAt_shape c rest
    rw [found] at shape
    have whole : lexeme ++ rest.drop extent = c :: rest := by
      rw [List.cons_append, List.take_append_drop]
    exact whole ▸ .cons (List.cons_ne_nil _ _) shape ih

/-! ## Where items stand -/

/-- `lexeme` is the stretch `span` of `source`, and starts on `line`. -/
def Stands (source lexeme : String) (span : Span) (line : Nat) : Prop :=
  ∃ front back : String, source = front ++ lexeme ++ back
    ∧ span = ⟨front.utf8ByteSize, (front ++ lexeme).utf8ByteSize⟩
    ∧ line = 1 + newlineCount front.toList

namespace Scan

/-- The bytes of an item. -/
def Item.span : Item → Span
  | .token t => t.span
  | .diagnostic d => d.span

/-- An item stands in `source` with the text that it is made of. -/
def Item.StandsIn (source : String) : Item → Prop
  | .token t => t.lexeme ≠ "" ∧ Stands source t.lexeme t.span t.line
  | .diagnostic ⟨.unexpectedCharacter text, span, line⟩ =>
    text.length = 1 ∧ Stands source text span line
  | .diagnostic ⟨.unterminatedString, span, line⟩ =>
    ∃ body, '"' ∉ body ∧ span.stop = source.utf8ByteSize
      ∧ Stands source (String.ofList ('"' :: body)) span line
  | .diagnostic _ => False

end Scan

theorem stands_ofList (front lexeme back : List Char) :
    Stands (String.ofList (front ++ (lexeme ++ back))) (String.ofList lexeme)
      ⟨byteCount front, byteCount front + byteCount lexeme⟩ (1 + newlineCount front) := by
  refine ⟨String.ofList front, String.ofList back, ?_, ?_, ?_⟩
  · rw [← String.ofList_append, ← String.ofList_append, List.append_assoc]
  · rw [← String.ofList_append, byteCount_ofList, byteCount_ofList, byteCount_append]
  · rw [String.toList_ofList]

/-- A piece leaves nothing, or an item with the bytes of the piece. -/
theorem Piece.item?_cases (piece : Piece) (lexeme : List Char) (p : Place) :
    piece = .gap ∧ piece.item? lexeme p = none
      ∨ ∃ item, piece.item? lexeme p = some item
        ∧ item.span = ⟨p.offset, p.offset + byteCount lexeme⟩ := by
  cases piece with
  | gap => exact .inl ⟨rfl, rfl⟩
  | token | unterminated | unexpected => exact .inr ⟨_, rfl, rfl⟩

/-- What a piece leaves stands where the piece is. -/
theorem Piece.Shape.stands {piece : Piece} {lexeme back : List Char}
    (shape : piece.Shape lexeme back) (front : List Char) (nonempty : lexeme ≠ []) :
    ∀ item ∈ (piece.item? lexeme (Place.after ⟨0, 1⟩ front)),
      item.StandsIn (String.ofList (front ++ (lexeme ++ back))) := by
  have stands := stands_ofList front lexeme back
  intro item left
  cases shape with
  | gap => cases left
  | token =>
    obtain rfl := Option.some.inj left
    refine ⟨fun empty => nonempty (by simpa using empty), ?_⟩
    simpa [Place.after] using stands
  | unterminated unclosed =>
    obtain rfl := Option.some.inj left
    refine ⟨_, unclosed, ?_, ?_⟩
    · rw [List.append_nil, byteCount_ofList, byteCount_append]
      simp [Place.after]
    · simpa [Place.after] using stands
  | unexpected =>
    obtain rfl := Option.some.inj left
    exact ⟨by simp, by simpa [Place.after] using stands⟩

namespace Tiling

variable {p : Place} {text : List Char} {items : List Scan.Item}

/-- Items lie within the text, and each takes a byte at least. -/
theorem within (tiling : Tiling p text items) : ∀ item ∈ items,
    p.offset ≤ item.span.start ∧ item.span.start < item.span.stop
      ∧ item.span.stop ≤ p.offset + byteCount text := by
  induction tiling with
  | nil => simp
  | @cons p piece lexeme back items nonempty shape others ih =>
    intro item member
    have filled := byteCount_pos nonempty
    rw [byteCount_append]
    rcases List.mem_append.1 member with here | later
    · obtain ⟨-, none⟩ | ⟨found, some, span⟩ := piece.item?_cases lexeme p
      · simp [none] at here
      · simp only [some, Option.toList_some, List.mem_singleton] at here
        subst here
        simp only [span]
        omega
    · have bounds := ih item later
      simp only [Place.after] at bounds
      omega

/-- An item ends before the next one starts. -/
theorem ordered (tiling : Tiling p text items) :
    items.Pairwise fun a b => a.span.stop ≤ b.span.start := by
  induction tiling with
  | nil => exact .nil
  | @cons p piece lexeme back items _ _ others ih =>
    obtain ⟨-, none⟩ | ⟨item, some, span⟩ := piece.item?_cases lexeme p
    · rwa [none]
    · rw [some]
      refine .cons (fun later member => ?_) ih
      rw [span]
      exact (others.within later member).1

/-- A byte belongs to an item, or to a gap that lies apart from all items. -/
theorem covers (tiling : Tiling p text items) (byte : Nat) (behind : p.offset ≤ byte)
    (inside : byte < p.offset + byteCount text) :
    (∃ item ∈ items, item.span.start ≤ byte ∧ byte < item.span.stop)
      ∨ ∃ front gap back, text = front ++ (gap ++ back) ∧ Separating gap back
        ∧ p.offset + byteCount front ≤ byte ∧ byte < p.offset + byteCount (front ++ gap)
        ∧ ∀ item ∈ items, item.span.stop ≤ p.offset + byteCount front
          ∨ p.offset + byteCount (front ++ gap) ≤ item.span.start := by
  induction tiling with
  | nil => simp at inside; omega
  | @cons p piece lexeme back items _ shape others ih =>
    rw [byteCount_append] at inside
    -- The byte is one of the first piece, which is an item or a gap, or lies behind it.
    by_cases early : byte < p.offset + byteCount lexeme
    · obtain ⟨rfl, none⟩ | ⟨item, some, span⟩ := piece.item?_cases lexeme p
      · obtain ⟨separates⟩ := shape
        refine .inr ⟨[], lexeme, back, rfl, separates, behind, early, fun item member => .inr ?_⟩
        rw [none] at member
        exact (others.within item member).1
      · exact .inl ⟨item, by simp [some], by rw [span]; exact ⟨behind, early⟩⟩
    · rcases ih (by simp only [Place.after]; omega) (by simp only [Place.after]; omega) with
        ⟨item, member, bounds⟩ | ⟨front, gap, after, rfl, separates, low, high, apart⟩
      · exact .inl ⟨item, List.mem_append_right _ member, bounds⟩
      · simp only [Place.after, byteCount_append] at low high apart
        refine .inr ⟨lexeme ++ front, gap, after, by simp only [List.append_assoc], separates,
          by simp only [byteCount_append]; omega, by simp only [byteCount_append]; omega,
          fun item member => ?_⟩
        simp only [byteCount_append]
        rcases List.mem_append.1 member with here | later
        · obtain ⟨-, none⟩ | ⟨found, some, span⟩ := piece.item?_cases lexeme p
          · simp [none] at here
          · simp only [some, Option.toList_some, List.mem_singleton] at here
            subst here
            simp only [span]
            omega
        · have := apart item later
          omega

/-- Every item stands in the whole text. -/
theorem stands {front : List Char} (tiling : Tiling (Place.after ⟨0, 1⟩ front) text items) :
    ∀ item ∈ items, item.StandsIn (String.ofList (front ++ text)) := by
  generalize origin : Place.after ⟨0, 1⟩ front = p at tiling
  induction tiling generalizing front with
  | nil => simp
  | @cons p piece lexeme back items nonempty shape others ih =>
    subst origin
    intro item member
    rcases List.mem_append.1 member with here | later
    · exact shape.stands front nonempty item (Option.mem_toList.1 here)
    · have := ih (Place.after_append _ _ _) item later
      rwa [List.append_assoc] at this

end Tiling

/-! ## A whole scan -/

/-- `line` is the header line that starts with `mark` and stands in front of `rest`; it is empty
where the text starts otherwise. -/
inductive HeaderLine (mark : List Char) : List Char → List Char → Prop where
  | absent {rest : List Char} (other : ¬ mark <+: rest) : HeaderLine mark [] rest
  | line {body rest : List Char} (marked : mark <+: body) (single : '\n' ∉ body) :
      HeaderLine mark (body ++ ['\n']) rest
  | last {body : List Char} (marked : mark <+: body) (single : '\n' ∉ body) :
      HeaderLine mark body []

/-- The header lines in front of a text: one for the command interpreter, one that names the language,
both optional. -/
def Preamble (preamble source : String) : Prop :=
  ∃ first second rest : List Char, preamble.toList = first ++ second
    ∧ source.toList = first ++ (second ++ rest)
    ∧ HeaderLine "#!".toList first (second ++ rest) ∧ HeaderLine "#alphabet".toList second rest

theorem headerLine_headerLength (mark text : List Char) (single : '\n' ∉ mark) :
    HeaderLine mark (text.take (Scan.headerLength mark text))
      (text.drop (Scan.headerLength mark text)) := by
  rw [Scan.headerLength]
  split
  next marked =>
    have marked : mark <+: text.takeWhile (· != '\n') := by
      obtain ⟨more, rfl⟩ := List.isPrefixOf_iff_prefix.1 marked
      rw [List.takeWhile_append_of_pos fun c member => by
        rw [bne_iff_ne]
        exact fun same => single (same ▸ member)]
      exact List.prefix_append _ _
    obtain ⟨front, back⟩ := cut_takeWhile (· != '\n') text
    have single := not_mem_takeWhile_ne '\n' text
    rw [← List.drop_drop, List.take_add, front, back]
    rcases dropWhile_ne '\n' text with nothing | head
    · rw [nothing, List.take_nil, List.append_nil, List.drop_nil]
      exact .last marked single
    · obtain ⟨rest, found⟩ := List.head?_eq_some_iff.1 head
      rw [found]
      exact .line marked single
  next other => exact .absent fun marked => other (List.isPrefixOf_iff_prefix.2 marked)

theorem preamble_preambleLength (source : String) :
    Preamble (String.ofList (source.toList.take (Scan.preambleLength source.toList))) source := by
  have first := headerLine_headerLength "#!".toList source.toList (by decide)
  have second := headerLine_headerLength "#alphabet".toList
    (source.toList.drop (Scan.headerLength "#!".toList source.toList)) (by decide)
  refine ⟨source.toList.take (Scan.headerLength "#!".toList source.toList), _, _, ?_, ?_, ?_, second⟩
  · rw [String.toList_ofList, Scan.preambleLength, List.take_add]
  · rw [List.take_append_drop, List.take_append_drop]
  · rwa [List.take_append_drop]

namespace Scan

/-- The bytes between items: what separates them, and lies apart from all of them. -/
def Bare (source : String) (items : List Item) (byte : Nat) : Prop :=
  ∃ front gap back : String, source = front ++ gap ++ back ∧ Separating gap.toList back.toList
    ∧ front.utf8ByteSize ≤ byte ∧ byte < (front ++ gap).utf8ByteSize
    ∧ ∀ item ∈ items, item.span.stop ≤ front.utf8ByteSize
      ∨ (front ++ gap).utf8ByteSize ≤ item.span.start

/-- A scan of `source`: its tokens and diagnostics are `items`, in the order of the text. -/
structure Covers (scan : Scan) (source preamble : String) (items : List Item) : Prop where
  tokens : scan.tokens = items.filterMap Item.token?
  diagnostics : scan.diagnostics = items.filterMap Item.diagnostic?
  stands : ∀ item ∈ items, item.StandsIn source
  nonempty : ∀ item ∈ items, item.span.start < item.span.stop
  ordered : items.Pairwise fun a b => a.span.stop ≤ b.span.start
  header : Preamble preamble source
  behind : ∀ item ∈ items, preamble.utf8ByteSize ≤ item.span.start
  covered : ∀ byte < source.utf8ByteSize, byte < preamble.utf8ByteSize
    ∨ (∃ item ∈ items, item.span.start ≤ byte ∧ byte < item.span.stop) ∨ Bare source items byte
  /-- The end of the tokens is the end of the text. -/
  stop : scan.stop = ⟨source.utf8ByteSize, 1 + newlineCount source.toList⟩

/-- The tokens and diagnostics of a text cover it, and stand where they say. -/
theorem ofText_covers (source : String) :
    ∃ preamble items, (Scan.ofText source).Covers source preamble items := by
  have header := preamble_preambleLength source
  have whole := source.toList.take_append_drop (preambleLength source.toList)
  generalize taken : source.toList.take (preambleLength source.toList) = preamble at header whole
  generalize left : source.toList.drop (preambleLength source.toList) = text at whole
  have size : byteCount preamble + byteCount text = source.utf8ByteSize := by
    rw [← byteCount_append, whole, byteCount_toList]
  have named : source = String.ofList (preamble ++ text) := by rw [whole, String.ofList_toList]
  have tiling := items_tiling (Place.after ⟨0, 1⟩ preamble) text
  have begins : (Place.after ⟨0, 1⟩ preamble).offset = byteCount preamble := Nat.zero_add _
  refine ⟨String.ofList preamble, items (Place.after ⟨0, 1⟩ preamble) text, ?_, ?_, ?_, ?_,
    tiling.ordered, header, ?_, ?_, ?_⟩
  · simp only [ofText, taken, left]
  · simp only [ofText, taken, left]
  · exact named ▸ tiling.stands
  · exact fun item member => (tiling.within item member).2.1
  · intro item member
    rw [byteCount_ofList, ← begins]
    exact (tiling.within item member).1
  · intro byte inside
    rw [byteCount_ofList]
    by_cases early : byte < byteCount preamble
    · exact .inl early
    · have := tiling.covers byte (by omega) (by omega)
      rw [begins] at this
      refine .inr (this.imp_right ?_)
      rintro ⟨front, gap, back, rfl, separates, low, high, apart⟩
      refine ⟨String.ofList (preamble ++ front), String.ofList gap, String.ofList back, ?_, ?_, ?_⟩
      · simp only [named, ← String.ofList_append, List.append_assoc]
      · simpa only [String.toList_ofList] using separates
      · simp only [← String.ofList_append, byteCount_ofList, byteCount_append] at *
        exact ⟨low, by omega, fun item member => by have := apart item member; omega⟩
  · simp [ofText, Place.after, byteCount_toList]

end Scan

end Monogram
