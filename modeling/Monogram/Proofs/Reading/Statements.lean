import Monogram.Proofs.Reading.Progress
import Monogram.Reading.Statement

/-! # Reading a program comes to an end

Readers that note complaints are followed without their notes.  A statement inside another one is
read after a token of that one has been taken, and after a complaint reading goes on further behind.

* `NotingReader.reading` — a reader without its notes.
* `Reader.settles_program` — a program is read, whatever there is to complain about.
-/

namespace Monogram

open Grammar (Heads)

variable {α γ : Type}

namespace NotingReader

variable {reader : NotingReader α} {next : α → NotingReader γ} {tokens rest : List Token}

/-- What comes of reading, without the notes. -/
def reading (reader : NotingReader α) : Reader α := fun tokens => (reader tokens).1

theorem bind_apply : (reader >>= next) tokens =
    match reader tokens with
    | (.done a mid, notes) => ((next a mid).1, notes ++ (next a mid).2)
    | (.refused refusal, notes) => (.refused refusal, notes)
    | (.exhausted, notes) => (.exhausted, notes) := rfl

theorem reading_bind : (reader >>= next).reading = reader.reading >>= fun a => (next a).reading := by
  funext tokens
  simp only [reading, bind_apply, Reader.bind_apply]
  rcases reader tokens with ⟨_ | _ | _, notes⟩ <;> rfl

theorem reading_pure (a : α) : (pure a : NotingReader α).reading = pure a := rfl

theorem lift_bind_apply {reader : Reader α} : (liftM reader >>= next : NotingReader γ) tokens =
    match reader tokens with
    | .done a mid => next a mid
    | .refused refusal => (.refused refusal, [])
    | .exhausted => (.exhausted, []) := by
  rw [bind_apply]
  change (match (reader tokens, []) with
    | (.done a mid, notes) => ((next a mid).1, notes ++ (next a mid).2)
    | (.refused refusal, notes) => (.refused refusal, notes)
    | (.exhausted, notes) => (.exhausted, notes)) = _
  cases reader tokens <;> rfl

/-- Done without a complaint. -/
theorem bind_eq_done {v : γ} : (reader >>= next) tokens = (.done v rest, [])
    ↔ ∃ a mid, reader tokens = (.done a mid, []) ∧ next a mid = (.done v rest, []) := by
  rw [bind_apply]
  rcases reader tokens with ⟨r | _ | _, notes⟩
  · simp [Prod.ext_iff]
    grind
  · simp
  · simp

theorem lift_bind_eq_done {reader : Reader α} {v : γ} :
    (liftM reader >>= next : NotingReader γ) tokens = (.done v rest, [])
      ↔ ∃ a mid, reader tokens = .done a mid ∧ next a mid = (.done v rest, []) := by
  rw [lift_bind_apply]
  cases reader tokens <;> simp [and_assoc]

theorem pure_eq_done {a v : α} :
    (pure a : NotingReader α) tokens = (.done v rest, []) ↔ a = v ∧ tokens = rest := by
  show (Reading.done a tokens, []) = _ ↔ _
  simp

theorem acceptThen_eq {kind : Token.Kind} {yes no : NotingReader α} :
    (do if ← Reader.accept kind then yes else no : NotingReader α) tokens
      = if Heads kind tokens then yes tokens.tail else no tokens := by
  rw [lift_bind_apply]
  by_cases same : Heads kind tokens
  · obtain ⟨t, rest, rfl, kind⟩ := same
    simp [Reader.accept_of_kind kind, heads_cons, kind]
  · simp [Reader.accept_of_not_heads same, same]

theorem reading_acceptThen {kind : Token.Kind} {yes no : NotingReader α} :
    (do if ← Reader.accept kind then yes else no : NotingReader α).reading
      = (do if ← Reader.accept kind then yes.reading else no.reading : Reader α) := by
  funext tokens
  rw [reading, acceptThen_eq, Reader.acceptThen_eq]
  split <;> rfl

end NotingReader

namespace NotingReader

/-- Not exhausted by less than `bound` tokens, of which it takes at least `taken`. -/
abbrev Settles (bound taken : Nat) (reader : NotingReader α) : Prop :=
  Reader.Settles bound taken reader.reading

namespace Settles

variable {reader : NotingReader α} {next : α → NotingReader γ} {bound bound' taken taken' : Nat}

theorem mono (settles : Settles bound taken reader) (fewer : bound' ≤ bound)
    (less : taken' ≤ taken) : Settles bound' taken' reader :=
  Reader.Settles.mono settles fewer less

theorem zero (settles : Settles bound taken reader) : Settles bound 0 reader :=
  Reader.Settles.zero settles

theorem andThen (settles : Settles bound taken reader)
    (then_settles : ∀ a, Settles (bound - taken) 0 (next a)) :
    Settles bound taken (reader >>= next) := by
  rw [Settles, reading_bind]
  exact Reader.Settles.andThen settles then_settles

theorem lift {reader : Reader α} (settles : reader.Settles bound taken) :
    Settles bound taken (liftM reader : NotingReader α) := settles

protected theorem pure (a : α) : Settles bound 0 (pure a : NotingReader α) := Reader.Settles.pure a

theorem map {f : α → γ} (settles : Settles bound taken reader) :
    Settles bound taken (do return f (← reader) : NotingReader γ) :=
  settles.andThen fun _ => .pure _

theorem acceptThen {kind : Token.Kind} {yes no : NotingReader α} (one : 1 ≤ bound)
    (yes_settles : Settles (bound - 1) (taken - 1) yes) (no_settles : Settles bound taken no) :
    Settles bound taken (do if ← Reader.accept kind then yes else no : NotingReader α) := by
  rw [Settles, reading_acceptThen]
  exact Reader.Settles.acceptThen one yes_settles no_settles

theorem bounded {repetition : Nat → NotingReader α}
    (settles : ∀ n, Settles (min n bound) taken (repetition n)) :
    Settles bound taken (bounded repetition) := by
  intro tokens short
  exact settles (tokens.length + 1) tokens (by omega)

end Settles

/-- Settles and takes a token where there is one. -/
def Proceeds (bound : Nat) (reader : NotingReader α) : Prop :=
  ∀ tokens, tokens ≠ [] → tokens.length < bound → (reader.reading tokens).Within tokens.length 1

theorem Proceeds.mono {reader : NotingReader α} {bound bound' : Nat} (proceeds : Proceeds bound reader)
    (fewer : bound' ≤ bound) : Proceeds bound' reader :=
  fun tokens some_ short => proceeds tokens some_ (Nat.lt_of_lt_of_le short fewer)

theorem Proceeds.andThen {reader : NotingReader α} {next : α → NotingReader γ} {bound : Nat}
    (proceeds : Proceeds bound reader) (then_settles : ∀ a, Settles (bound - 1) 0 (next a)) :
    Proceeds bound (reader >>= next) := by
  intro tokens some_ short
  rw [reading_bind]
  refine (proceeds tokens some_ short).andThen fun a mid left => ?_
  exact (then_settles a mid (by omega)).weaken (by omega) (by omega)

end NotingReader

/-! ## The end of a list of members or declarations -/

/-- A closing brace comes next, or nothing. -/
def Closed (tokens : List Token) : Prop := tokens = [] ∨ Heads (.symbol .closeBrace) tokens

instance {tokens : List Token} : Decidable (Closed tokens) := inferInstanceAs (Decidable (_ ∨ _))

theorem Reader.untilClosed_eq {yes no : Reader α} {tokens : List Token} :
    (do if (← check (.symbol .closeBrace)) || (← atEnd) then yes else no : Reader α) tokens
      = if Closed tokens then yes tokens else no tokens := by
  cases tokens with
  | nil => rfl
  | cons t tokens =>
    by_cases closes : t.kind = .symbol .closeBrace <;>
      simp [check, atEnd, Reading.andThen, Closed, heads_cons, closes]

theorem NotingReader.untilClosed_eq {yes no : NotingReader α} {tokens : List Token} :
    (do if (← Reader.check (.symbol .closeBrace)) || (← Reader.atEnd) then yes else no :
      NotingReader α) tokens = if Closed tokens then yes tokens else no tokens := by
  rw [lift_bind_apply]
  simp only [Reader.check, lift_bind_apply, Reader.atEnd]
  cases tokens with
  | nil => rfl
  | cons t tokens =>
    by_cases closes : t.kind = .symbol .closeBrace <;> simp [Closed, heads_cons, closes]

namespace Reader

variable {inner : NotingReader Stmt} {declaration : NotingReader (Option Stmt)}
  {tokens rest : List Token} {t : Token} {bound n : Nat}

/-! ## One round, one statement -/

theorem interfaceMembers_succ : interfaceMembers (n + 1) tokens =
    if Closed tokens then .done [] tokens
    else if Heads (.keyword .methodWord) tokens then
      (do
        let (returnType, method, parameters) ← signature
        let others ← interfaceMembers n
        return ⟨method, parameters, [], returnType, none, false⟩ :: others : Reader _) tokens.tail
    else .refused ⟨.expected "Interfaces can only contain methods", tokens⟩ := by
  rw [interfaceMembers, untilClosed_eq]
  split
  · rfl
  · exact acceptThen_eq

theorem giveBack_eq : giveBack tokens =
    if Heads (.symbol .closeBrace) tokens then .done (.giveBack none) tokens
    else (do return .giveBack (← optional expression) : Reader Stmt) tokens := by
  rw [giveBack, bind_apply]
  split
  · next closes => rw [check_of_heads closes]; rfl
  · next other => rw [check_of_not_heads other]; rfl

theorem blockBody_succ : blockBody declaration (n + 1) tokens =
    if Closed tokens then (.done [] tokens, [])
    else (do
      let first ← declaration
      let others ← blockBody declaration n
      return first.toList ++ others : NotingReader _) tokens := by
  rw [blockBody, NotingReader.untilClosed_eq]
  rfl

/-- A member behind its modifiers, and the members behind it. -/
def membersFrom (declaration : NotingReader (Option Stmt)) (n : Nat)
    (modified : Option Visibility × Bool) : NotingReader (List Member) := fun tokens =>
  if Heads (.keyword .methodWord) tokens then
    (do
      let first ← method declaration modified.1 modified.2
      return .method first :: (← members declaration n) : NotingReader _) tokens.tail
  else if Heads .number tokens then
    (do
      let first ← varDecl modified.1 modified.2
      return .field first :: (← members declaration n) : NotingReader _) tokens
  else (.refused ⟨.expected "Expect method or field declaration", tokens⟩, [])

theorem members_succ : members declaration (n + 1) tokens =
    if Closed tokens then (.done [] tokens, [])
    else (do membersFrom declaration n (← (modifiers none false : Reader _)) : NotingReader _)
      tokens := by
  rw [members, NotingReader.untilClosed_eq]
  split
  · rfl
  · rw [NotingReader.lift_bind_apply, NotingReader.lift_bind_apply]
    split
    · next modified mid taken =>
      obtain ⟨visibility, isStatic⟩ := modified
      simp only
      rw [NotingReader.acceptThen_eq, membersFrom]
      split
      · rfl
      · rw [NotingReader.lift_bind_apply]
        by_cases number : Heads .number mid
        · simp [check_of_heads number, number]
        · simp only [check_of_not_heads number, number, Bool.false_eq_true, if_false]
          rfl
    · rfl
    · rfl

theorem program_succ : program (n + 1) tokens =
    if tokens = [] then (.done [] tokens, [])
    else (do
      let first ← topDeclaration
      let others ← program n
      return first.toList ++ others : NotingReader _) tokens := by
  rw [program, NotingReader.lift_bind_apply]
  cases tokens <;> rfl

theorem statement_cons : statement inner declaration (t :: tokens) =
    match t.kind with
    | .keyword .ifWord => conditional inner tokens
    | .keyword .returnWord => (giveBack tokens, [])
    | .keyword .loopWord => loop inner tokens
    | .keyword .tryWord => tryHandle declaration tokens
    | .symbol .openBrace => (do return .block (← block declaration) : NotingReader _) tokens
    | .number => (do return .declare (← varDecl none false) : NotingReader _) (t :: tokens)
    | _ => (do return .expression (← expression) : NotingReader _) (t :: tokens) := by
  rw [statement, NotingReader.lift_bind_apply]
  simp only [peek, List.head?_cons, Option.map_some]
  cases t.kind with
  | symbol s => cases s <;> rfl
  | keyword k => cases k <;> rfl
  | identifier | number | string => rfl

theorem statement_nil : statement inner declaration [] =
    (do return .expression (← expression) : NotingReader _) [] := rfl

/-! ## Members and signatures -/

theorem settles_typeCode (what : String) : Settles bound 1 (typeCode what) := by
  intro tokens short
  refine (Settles.expectToken .number what tokens short).andThen fun t rest left => ?_
  split
  · exact left
  · simp only [Reading.Within]
    omega

theorem settles_varDecl (visibility : Option Visibility) (isStatic : Bool) :
    Settles bound 1 (varDecl visibility isStatic) := by
  refine (settles_typeCode _).andThen fun code => ((Settles.name _).andThen fun ident => ?_).zero
  intro tokens short
  exact Settles.acceptThen (by omega) settles_expression.map.zero (.pure _) tokens short

theorem settles_signature : Settles bound 1 signature := by
  refine (settles_typeCode _).andThen fun returnType => ((Settles.name _).andThen fun method => ?_).zero
  refine ((Settles.expect _ _).andThen fun _ => ?_).zero
  refine (Settles.commaList ?_ _ _).map.zero
  exact (settles_typeCode _).andThen fun code => (Settles.name _).map.zero

theorem settles_modifiers (visibility : Option Visibility) (isStatic : Bool) :
    Settles bound 0 (modifiers visibility isStatic) := by
  intro tokens short
  induction tokens generalizing visibility isStatic with
  | nil => exact Nat.le_refl 0
  | cons t tokens ih =>
    have short : tokens.length < bound := Nat.lt_of_succ_lt short
    unfold modifiers
    split
    · exact (ih _ _ short).succ (Nat.zero_le _)
    · exact (ih _ _ short).succ (Nat.zero_le _)
    · exact (ih _ _ short).succ (Nat.zero_le _)
    · simp [Reading.Within]

theorem settles_interfaceMembers (n : Nat) : Settles (min n bound) 0 (interfaceMembers n) := by
  induction n with
  | zero =>
    intro tokens short
    omega
  | succ n ih =>
    intro tokens short
    rw [interfaceMembers_succ]
    split
    · simp [Reading.Within]
    · split
      · next heads =>
        have short : tokens.length < min n bound + 1 := by omega
        refine within_tail heads short (settles_signature.andThen ?_).zero
        rintro ⟨returnType, method, parameters⟩
        exact (ih.mono (by omega) (Nat.le_refl 0)).map
      · simp [Reading.Within]

theorem settles_interfaceDecl : Settles bound 1 interfaceDecl := by
  refine (Settles.name _).andThen fun interface => ((Settles.expect _ _).andThen fun _ => ?_).zero
  have methods : Settles (bound - 1 - 1) 0 (bounded interfaceMembers) :=
    .bounded fun n => settles_interfaceMembers n
  exact methods.andThen fun methods => ((Settles.expect _ _).andThen fun _ => .pure _).zero

theorem settles_ancestors : Settles bound 0 ancestors := by
  intro tokens short
  refine Settles.acceptThen (by omega) ?_ (.pure _) tokens short
  refine ((Settles.name _).andThen fun superclass => ?_).zero
  intro tokens short
  refine Settles.acceptThen (by omega) ?_ (.pure _) tokens short
  have names : Settles (bound - 1 - 1 - 1) 1 (bounded (commaItems (name "Expect interface name"))) :=
    .bounded fun n => (Settles.name _).commaItems n
  exact names.map.zero

theorem settles_giveBack : Settles bound 0 giveBack := by
  intro tokens short
  rw [giveBack_eq]
  split
  · simp [Reading.Within]
  · have taken := settles_expression tokens short
    simp only [bind_apply, optional]
    generalize expression tokens = r at taken
    cases r with
    | done e rest => simpa [Reading.Within, Reading.andThen] using Nat.le_of_succ_le taken
    | refused r => simp [Reading.Within, Reading.andThen]
    | exhausted => exact taken

/-! ## Statements -/

open NotingReader (Proceeds)

theorem ne_nil_of_not_closed (opened : ¬ Closed tokens) : tokens ≠ [] :=
  fun empty => opened (.inl empty)

theorem settles_blockBody (proceeds : Proceeds bound declaration) (n : Nat) :
    NotingReader.Settles (min n bound) 0 (blockBody declaration n) := by
  induction n with
  | zero =>
    intro tokens short
    omega
  | succ n ih =>
    intro tokens short
    rw [NotingReader.reading, blockBody_succ]
    split
    · simp [Reading.Within]
    · next opened =>
      have first : Proceeds (min (n + 1) bound) declaration := proceeds.mono (by omega)
      have later : NotingReader.Settles (min (n + 1) bound - 1) 0 (blockBody declaration n) :=
        ih.mono (by omega) (Nat.le_refl 0)
      exact (first.andThen (fun first => later.map) tokens (ne_nil_of_not_closed opened) short).weaken
        (Nat.le_refl _) (Nat.le_succ _)

theorem settles_block (proceeds : Proceeds bound declaration) :
    NotingReader.Settles bound 0 (block declaration) := by
  have body : NotingReader.Settles bound 0 (NotingReader.bounded (blockBody declaration)) :=
    .bounded fun n => settles_blockBody proceeds n
  exact body.andThen fun body => (NotingReader.Settles.lift (Settles.expect _ _)).map.zero

/-- A condition between parentheses. -/
theorem settles_conditioned {next : Expr → NotingReader Stmt} {opens closes : String}
    (settles : ∀ condition, NotingReader.Settles (bound - 1) 0 (next condition)) :
    NotingReader.Settles bound 1 (do
      expect .openParen opens
      let condition ← expression
      expect .closeParen closes
      next condition) := by
  refine (NotingReader.Settles.lift (Settles.expect _ _)).andThen fun _ => ?_
  refine ((NotingReader.Settles.lift settles_expression).andThen fun condition => ?_).zero
  refine ((NotingReader.Settles.lift (Settles.expect _ _)).andThen fun _ => ?_).zero
  exact (settles condition).mono (by omega) (Nat.le_refl 0)

theorem settles_conditional (settles : NotingReader.Settles bound 1 inner) :
    NotingReader.Settles bound 1 (conditional inner) := by
  refine settles_conditioned fun condition => ?_
  refine ((settles.mono (Nat.sub_le bound 1) (Nat.le_refl 1)).andThen fun yes => ?_).zero
  intro tokens short
  refine NotingReader.Settles.acceptThen (by omega) ?_ (.pure _) tokens short
  exact (settles.mono (by omega) (Nat.zero_le 1)).map

theorem settles_loop (settles : NotingReader.Settles bound 1 inner) :
    NotingReader.Settles bound 1 (loop inner) :=
  settles_conditioned fun _ => (settles.mono (Nat.sub_le bound 1) (Nat.zero_le 1)).map

theorem settles_tryHandle (proceeds : Proceeds bound declaration) :
    NotingReader.Settles bound 1 (tryHandle declaration) := by
  have block {b : Nat} (fewer : b ≤ bound) : NotingReader.Settles b 0 (block declaration) :=
    settles_block (proceeds.mono fewer)
  refine (NotingReader.Settles.lift (Settles.expect _ _)).andThen fun _ => ?_
  refine (block (by omega)).andThen fun body => ?_
  refine ((NotingReader.Settles.lift (Settles.expectToken _ _)).andThen fun _ => ?_).zero
  refine ((NotingReader.Settles.lift (Settles.expect _ _)).andThen fun _ => ?_).zero
  refine ((NotingReader.Settles.lift (settles_typeCode _)).andThen fun code => ?_).zero
  refine ((NotingReader.Settles.lift (Settles.name _)).andThen fun binding => ?_).zero
  refine ((NotingReader.Settles.lift (Settles.expect _ _)).andThen fun _ => ?_).zero
  refine ((NotingReader.Settles.lift (Settles.expect _ _)).andThen fun _ => ?_).zero
  exact (block (by omega)).map

theorem settles_statement (settles : NotingReader.Settles bound 1 inner)
    (proceeds : Proceeds bound declaration) :
    NotingReader.Settles (bound + 1) 1 (statement inner declaration) := by
  have expression_ : NotingReader.Settles (bound + 1) 1 (do return Stmt.expression (← expression)) :=
    (NotingReader.Settles.lift settles_expression).map
  intro tokens short
  cases tokens with
  | nil => exact expression_ [] short
  | cons t tokens =>
    have behind {taken : Nat} {reader : NotingReader Stmt}
        (settles : NotingReader.Settles bound taken reader) :
        (reader.reading tokens).Within (t :: tokens).length 1 :=
      (settles.zero tokens (Nat.lt_of_succ_lt_succ short)).succ (Nat.le_refl 1)
    rw [NotingReader.reading, statement_cons]
    split
    · exact behind (settles_conditional settles)
    · exact behind (NotingReader.Settles.lift settles_giveBack)
    · exact behind (settles_loop settles)
    · exact behind (settles_tryHandle proceeds)
    · exact behind (settles_block proceeds).map
    · exact (NotingReader.Settles.lift (settles_varDecl none false)).map (t :: tokens) short
    · exact expression_ (t :: tokens) short

/-! ## Declarations -/

theorem settles_method (proceeds : Proceeds bound declaration) (visibility : Option Visibility)
    (isStatic : Bool) : NotingReader.Settles bound 1 (method declaration visibility isStatic) := by
  refine (NotingReader.Settles.lift settles_signature).andThen fun (returnType, method, parameters) => ?_
  refine ((NotingReader.Settles.lift (Settles.expect _ _)).andThen fun _ => ?_).zero
  exact (settles_block (proceeds.mono (by omega))).map

theorem settles_members (proceeds : Proceeds bound declaration) (n : Nat) :
    NotingReader.Settles (min n bound) 0 (members declaration n) := by
  induction n with
  | zero =>
    intro tokens short
    omega
  | succ n ih =>
    intro tokens short
    rw [NotingReader.reading, members_succ]
    split
    · simp [Reading.Within]
    · have modified : NotingReader.Settles (min (n + 1) bound) 0
          (liftM (modifiers none false) : NotingReader _) := settles_modifiers none false
      refine modified.andThen (fun modified tokens short => ?_) tokens short
      rw [NotingReader.reading, membersFrom]
      have short : tokens.length < min n bound + 1 := by omega
      split
      · next heads =>
        have method : NotingReader.Settles (min n bound) 1
            (method declaration modified.1 modified.2) := settles_method (proceeds.mono (by omega)) _ _
        have later : NotingReader.Settles (min n bound - 1) 0 (members declaration n) :=
          ih.mono (by omega) (Nat.le_refl 0)
        exact within_tail heads short (method.andThen fun first => later.map).zero
      · split
        · have field : NotingReader.Settles (min n bound + 1) 1
              (liftM (varDecl modified.1 modified.2) : NotingReader _) := settles_varDecl _ _
          exact (field.andThen fun first => ih.map).zero tokens short
        · simp [Reading.Within]

theorem settles_classDecl (proceeds : Proceeds bound declaration) :
    NotingReader.Settles bound 1 (classDecl declaration) := by
  refine (NotingReader.Settles.lift (Settles.name _)).andThen fun className => ?_
  refine (NotingReader.Settles.lift settles_ancestors).andThen fun (superclass, interfaces) => ?_
  refine ((NotingReader.Settles.lift (Settles.expect _ _)).andThen fun _ => ?_).zero
  have body : NotingReader.Settles (bound - 1 - 0 - 1) 0 (NotingReader.bounded (members declaration)) :=
    .bounded fun n => settles_members (proceeds.mono (by omega)) n |>.mono (Nat.le_refl _) (Nat.le_refl 0)
  exact body.andThen fun body => (NotingReader.Settles.lift (Settles.expect _ _)).map.zero

theorem settles_anyDeclaration (settles : NotingReader.Settles bound 1 inner)
    (proceeds : Proceeds bound declaration) :
    NotingReader.Settles (bound + 1) 1 (anyDeclaration inner declaration) := by
  intro tokens short
  rw [NotingReader.reading, anyDeclaration]
  have behind {reader : Reader Stmt} (settles : reader.Settles bound 1) (some_ : tokens ≠ []) :
      (reader tokens.tail).Within tokens.length 1 := by
    obtain ⟨t, tokens, rfl⟩ := List.exists_cons_of_ne_nil some_
    exact (settles.zero tokens (Nat.lt_of_succ_lt_succ short)).succ (Nat.le_refl 1)
  split
  · next starts =>
    refine behind (settles_classDecl proceeds) ?_
    rintro rfl
    simp [startsClass] at starts
  · split
    · next starts =>
      refine behind settles_interfaceDecl ?_
      rintro rfl
      simp at starts
    · exact settles_statement settles proceeds tokens short

theorem length_resume_le (inBlock : Bool) (tokens : List Token) :
    (resume inBlock tokens).length ≤ tokens.length := by
  induction tokens with
  | nil => exact Nat.le_refl 0
  | cons t tokens ih =>
    rw [resume]
    split
    · exact Nat.le_refl _
    · split
      · split <;> simp
      · exact Nat.le_succ_of_le ih

/-- Reading goes on behind the first token of what is left out. -/
theorem length_resumeAfter_lt (inBlock : Bool) {r : Refusal} (some_ : tokens ≠ [])
    (left : r.rest.length ≤ tokens.length) :
    (resumeAfter inBlock tokens r).length < tokens.length := by
  have positive := List.length_pos_iff.2 some_
  unfold resumeAfter
  split
  · have := length_resume_le inBlock r.rest.tail
    simp only [List.length_tail] at this
    omega
  · have := length_resume_le inBlock r.rest
    omega

theorem proceeds_recovering {reader : NotingReader Stmt} (settles : NotingReader.Settles bound 1 reader)
    (inBlock : Bool) : Proceeds bound (recovering inBlock reader) := by
  intro tokens some_ short
  have within := settles tokens short
  rw [NotingReader.reading] at within ⊢
  rw [recovering]
  generalize reader tokens = read at within ⊢
  rcases read with ⟨r | r | _, notes⟩
  · exact within
  · exact length_resumeAfter_lt inBlock some_ within
  · exact within

theorem settles_statementAt (depth : Nat) :
    NotingReader.Settles depth 1 (statementAt depth)
      ∧ ∀ inBlock, Proceeds depth (declarationAt depth inBlock) := by
  induction depth with
  | zero =>
    constructor
    · intro tokens short
      omega
    · intro inBlock tokens some_ short
      omega
  | succ depth ih =>
    constructor
    · rw [statementAt]
      exact settles_statement ih.1 (ih.2 true)
    · intro inBlock
      rw [declarationAt]
      exact proceeds_recovering (settles_anyDeclaration ih.1 (ih.2 true)) inBlock

theorem topDeclaration_apply : topDeclaration tokens = declarationAt (tokens.length + 1) false tokens :=
  rfl

theorem proceeds_topDeclaration : Proceeds bound topDeclaration := by
  intro tokens some_ short
  rw [NotingReader.reading, topDeclaration_apply]
  exact (settles_statementAt (tokens.length + 1)).2 false tokens some_ (Nat.lt_succ_self _)

theorem settles_program (n : Nat) : NotingReader.Settles (min n bound) 0 (program n) := by
  induction n with
  | zero =>
    intro tokens short
    omega
  | succ n ih =>
    intro tokens short
    rw [NotingReader.reading, program_succ]
    split
    · simp [Reading.Within]
    · next some_ =>
      have later : NotingReader.Settles (min (n + 1) bound - 1) 0 (program n) :=
        ih.mono (by omega) (Nat.le_refl 0)
      exact (proceeds_topDeclaration.andThen (fun first => later.map) tokens some_ short).weaken
        (Nat.le_refl _) (Nat.le_succ _)

theorem topDeclaration_ne_refused {r : Refusal} : topDeclaration.reading tokens ≠ .refused r := by
  rw [NotingReader.reading, topDeclaration_apply, declarationAt, recovering]
  split <;> simp

/-- A program that is not exhausted is read to the end. -/
theorem program_reading (n : Nat) (tokens : List Token)
    (settled : (program n).reading tokens ≠ .exhausted) :
    ∃ statements, (program n).reading tokens = .done statements [] := by
  induction n generalizing tokens with
  | zero => exact absurd rfl settled
  | succ n ih =>
    rw [NotingReader.reading, program_succ] at settled ⊢
    split
    · next empty => exact ⟨[], by rw [empty]⟩
    · next some_ =>
      rw [if_neg some_, ← NotingReader.reading] at settled
      rw [← NotingReader.reading]
      simp only [NotingReader.reading_bind, bind_apply] at settled ⊢
      cases read : topDeclaration.reading tokens with
      | refused r => exact absurd read topDeclaration_ne_refused
      | exhausted => simp [read, Reading.andThen] at settled
      | done first mid =>
        simp only [read, Reading.andThen, bind_apply] at settled ⊢
        obtain ⟨others, done⟩ := ih mid fun exhausted => settled (by simp [exhausted])
        exact ⟨first.toList ++ others, by simp [done, NotingReader.reading_pure]⟩

/-- Whatever there is to complain about, a program is read to its end. -/
theorem program_done (tokens : List Token) :
    ∃ statements, (NotingReader.bounded program tokens).1 = .done statements [] := by
  have settles : NotingReader.Settles (min (tokens.length + 1) (tokens.length + 1)) 0
      (program (tokens.length + 1)) := settles_program _
  have within := settles tokens (by omega)
  refine program_reading _ tokens fun exhausted => ?_
  rw [exhausted] at within
  exact within

end Reader

end Monogram
