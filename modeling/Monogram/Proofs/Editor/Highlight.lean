import Monogram.Editor.Highlight
import Monogram.Proofs.Token.Tiling

/-! # A highlighted text

The segments of a text lie behind one another from its first byte to its last.  Each token is one of
them, and the others lie between tokens.

* `Highlights` — segments of a text and the tokens that are among them.
* `Tiling.highlights` — the segments of a text that is cut into pieces.
* `highlight_preserves` — the segments of a whole text.
-/

namespace Monogram

/-- The segments begin behind `offset` bytes of a text whose tokens are `all`.  The tokens `ts`, in their
order, are segments with their own color and text, and no token has a byte of another segment. -/
inductive Highlights (all : List Token) : Nat → List Token → List Segment → Prop where
  | nil {offset : Nat} : Highlights all offset [] []
  | token {offset : Nat} {t : Token} {ts : List Token} {segments : List Segment}
      (place : t.span = ⟨offset, offset + t.lexeme.utf8ByteSize⟩)
      (others : Highlights all t.span.stop ts segments) :
      Highlights all offset (t :: ts) (⟨t.color, t.lexeme⟩ :: segments)
  | between {offset : Nat} {s : Segment} {ts : List Token} {segments : List Segment}
      (apart : ∀ t ∈ all, t.span.stop ≤ offset ∨ offset + s.text.utf8ByteSize ≤ t.span.start)
      (others : Highlights all (offset + s.text.utf8ByteSize) ts segments) :
      Highlights all offset ts (s :: segments)

/-! ## Texts of segments -/

theorem gapSegments_text (gap : List Char) : (gapSegments gap).flatMap (·.text.toList) = gap := by
  have cut := cutAtComment_append gap
  unfold gapSegments
  split
  next empty => simpa using (List.isEmpty_iff.1 empty).symm
  next =>
    split
    next => simp
    next plain comment _ found =>
      rw [found] at cut
      simpa using cut

/-- Whatever tokens a text is said to have, its segments are the whole text. -/
theorem segmentsFrom_text (offset : Nat) (text : List Char) (tokens : List Token) :
    (segmentsFrom offset text tokens).flatMap (·.text.toList) = text := by
  fun_induction segmentsFrom offset text tokens with
  | case1 offset text => exact gapSegments_text text
  | case2 offset text t tokens early ih => exact ih
  | case3 offset text t tokens late gap behind first lexeme rest second ih =>
    have front := splitBytes_append (t.span.start - offset) text
    have back := splitBytes_append (t.span.stop - t.span.start) behind
    rw [first] at front
    rw [second] at back
    rw [List.flatMap_append, gapSegments_text, List.flatMap_cons, ih, String.toList_ofList, back, front]

theorem highlight_text (text : String) :
    String.join ((highlight text).map Segment.text) = text := by
  have whole := segmentsFrom_text 0 text.toList (Scan.ofText text).tokens
  rw [← String.toList_inj, String.toList_join, List.flatMap_map]
  exact whole

/-! ## Tokens among segments -/

section Placed

variable {all ts : List Token} {segments : List Segment} {offset : Nat}

theorem Highlights.gap {gap : List Char}
    (apart : ∀ t ∈ all, t.span.stop ≤ offset ∨ offset + byteCount gap ≤ t.span.start)
    (others : Highlights all (offset + byteCount gap) ts segments) :
    Highlights all offset ts (gapSegments gap ++ segments) := by
  have cut := cutAtComment_append gap
  unfold gapSegments
  split
  next empty =>
    obtain rfl := List.isEmpty_iff.1 empty
    exact others
  next =>
    split
    next =>
      rw [← byteCount_ofList] at apart others
      exact .between apart others
    next plain comment _ found =>
      rw [found] at cut
      obtain rfl : plain ++ comment = gap := cut
      rw [byteCount_append, ← byteCount_ofList, ← byteCount_ofList] at apart others
      refine .between (fun t member => ?_) (.between (fun t member => ?_) ?_)
      · exact (apart t member).imp_right (by dsimp only; omega)
      · exact (apart t member).imp (by dsimp only; omega) (by dsimp only; omega)
      · rwa [Nat.add_assoc]

theorem segmentsFrom_token {gap lexeme rest : List Char} {t : Token} (tokens : List Token)
    (place : t.span = ⟨offset + byteCount gap, offset + byteCount gap + byteCount lexeme⟩) :
    segmentsFrom offset (gap ++ (lexeme ++ rest)) (t :: tokens)
      = gapSegments gap ++ ⟨t.color, String.ofList lexeme⟩ :: segmentsFrom t.span.stop rest tokens := by
  have late : ¬ t.span.start < offset := by simp [place]
  rw [segmentsFrom, if_neg late]
  simp only [place, Nat.add_sub_cancel_left, splitBytes_byteCount]

/-- A piece leaves no token, or one that is the piece. -/
theorem Piece.token_cases (piece : Piece) (lexeme : List Char) (p : Place) :
    (piece.item? lexeme p).toList.filterMap Scan.Item.token? = []
      ∨ ∃ t : Token, (piece.item? lexeme p).toList.filterMap Scan.Item.token? = [t]
        ∧ t.lexeme = String.ofList lexeme ∧ t.span = ⟨p.offset, p.offset + byteCount lexeme⟩ := by
  cases piece with
  | token kind => exact .inr ⟨_, rfl, rfl, rfl⟩
  | gap | unterminated | unexpected => exact .inl rfl

theorem token_mem {items : List Scan.Item} {t : Token} (member : t ∈ items.filterMap Scan.Item.token?) :
    Scan.Item.token t ∈ items := by
  obtain ⟨item, here, same⟩ := List.mem_filterMap.1 member
  cases item with
  | token u => exact Option.some.inj same ▸ here
  | diagnostic d => cases same

/-- The segments of a text in pieces, with what has been left in front of it since the last token. -/
theorem Tiling.highlights {p : Place} {text : List Char} {items : List Scan.Item}
    (tiling : Tiling p text items) (gap : List Char) (begins : p.offset = offset + byteCount gap)
    (known : ∀ t ∈ all, t.span.stop ≤ offset ∨ t ∈ items.filterMap Scan.Item.token?) :
    Highlights all offset (items.filterMap Scan.Item.token?)
      (segmentsFrom offset (gap ++ text) (items.filterMap Scan.Item.token?)) := by
  induction tiling generalizing offset gap with
  | nil =>
    have last : ∀ t ∈ all, t.span.stop ≤ offset ∨ offset + byteCount gap ≤ t.span.start := fun t member =>
      (known t member).imp_right (nomatch ·)
    rw [List.filterMap_nil, List.append_nil, segmentsFrom, ← List.append_nil (gapSegments gap)]
    exact .gap last .nil
  | @cons p piece lexeme back items nonempty shape others ih =>
    rw [List.filterMap_append] at known ⊢
    obtain none | ⟨t, some, text, place⟩ := piece.token_cases lexeme p
    · -- The piece is a part of what stands in front of the next token.
      rw [none, List.nil_append] at known ⊢
      have behind : (p.after lexeme).offset = offset + byteCount (gap ++ lexeme) := by
        rw [byteCount_append, ← Nat.add_assoc, ← begins]
        rfl
      rw [← List.append_assoc]
      exact ih (gap ++ lexeme) behind known
    · rw [some, List.singleton_append] at known ⊢
      have place : t.span = ⟨offset + byteCount gap, offset + byteCount gap + byteCount lexeme⟩ :=
        begins ▸ place
      have apart : ∀ u ∈ all, u.span.stop ≤ offset ∨ offset + byteCount gap ≤ u.span.start := by
        refine fun u member => (known u member).imp_right fun later => ?_
        obtain rfl | later := List.mem_cons.1 later
        · rw [place]
        · have ahead : (p.after lexeme).offset ≤ u.span.start := (others.within _ (token_mem later)).1
          simp only [Place.after] at ahead
          omega
      have behind : ∀ u ∈ all, u.span.stop ≤ t.span.stop
          ∨ u ∈ items.filterMap Scan.Item.token? := by
        intro u member
        obtain early | later := known u member
        · have start := Nat.le_add_right offset (byteCount gap)
          exact .inl (by rw [place]; dsimp only; omega)
        · exact (List.mem_cons.1 later).imp_left fun same => by rw [same]
      have next : (p.after lexeme).offset = t.span.stop + byteCount [] := by
        rw [place, ← begins]
        rfl
      rw [segmentsFrom_token _ place, ← text]
      refine .gap apart (.token ?_ (ih [] next behind))
      rw [place, text, byteCount_ofList]

end Placed

/-- The segments of a text are the text, and each of its tokens is one of them. -/
theorem highlight_preserves (text : String) :
    String.join ((highlight text).map Segment.text) = text
      ∧ Highlights (Scan.ofText text).tokens 0 (Scan.ofText text).tokens (highlight text) := by
  refine ⟨highlight_text text, ?_⟩
  have whole := text.toList.take_append_drop (Scan.preambleLength text.toList)
  generalize taken : text.toList.take (Scan.preambleLength text.toList) = preamble at whole
  generalize left : text.toList.drop (Scan.preambleLength text.toList) = body at whole
  have tokens : (Scan.ofText text).tokens
      = (Scan.items (Place.after ⟨0, 1⟩ preamble) body).filterMap Scan.Item.token? := by
    simp only [Scan.ofText, taken, left]
  rw [highlight, tokens, ← whole]
  exact (Scan.items_tiling _ _).highlights preamble rfl fun t member => .inr member

end Monogram
