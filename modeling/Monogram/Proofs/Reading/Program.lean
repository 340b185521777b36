import Monogram.Proofs.Reading.Completeness
import Monogram.Proofs.Reading.Statements
import Monogram.Reading.Source

/-! # Programs that have been read are derived

The grammar of statements and declarations.  Statements stand side by side with nothing in between,
so where a statement ends may depend on the tokens behind it, which every relation names beside the
tokens that it derives from.

* `Grammar.Statement`, `Grammar.Declaration`, `Grammar.Body` — the grammar.
* `Reader.reads_statementAt` — what the readers take is derived, unless they complain.
* `Source.read_derives` — a text without complaints is a row of derivations.
-/

namespace Monogram

namespace Grammar

/-! ## Declarations without statements -/

/-- A type annotation and a name. -/
inductive Typed : List Token → TypeCode × String → Prop where
  | mk {c t : Token} {code : TypeCode} (typed : c.number?.bind Reader.typeCode? = some code)
      (name : t.isName) : Typed [c, t] (code, t.lexeme)

/-- A variable or a field, with or without a value. -/
inductive Variable (visibility : Option Visibility) (isStatic : Bool) :
    List Token → VarDecl → List Token → Prop where
  | plain {ts rest : List Token} {code : TypeCode} {name : String} (typed : Typed ts (code, name))
      (last : ¬ Heads (.symbol .equal) rest) :
      Variable visibility isStatic ts ⟨code, name, none, visibility, isStatic⟩ rest
  | initialized {ts vs rest : List Token} {equals : Token} {code : TypeCode} {name : String} {e : Expr}
      (typed : Typed ts (code, name)) (kind : equals.kind = .symbol .equal) (value : Assignment vs e)
      (ends : Ends rest) :
      Variable visibility isStatic (ts ++ equals :: vs) ⟨code, name, some e, visibility, isStatic⟩ rest

/-- A parameter. -/
inductive Parameter : List Token → VarDecl → Prop where
  | mk {ts : List Token} {code : TypeCode} {name : String} (typed : Typed ts (code, name)) :
      Parameter ts ⟨code, name, none, none, false⟩

/-- The type of a result, a name and parameters. -/
inductive Signature : List Token → TypeCode × String × List VarDecl → Prop where
  | mk {ts ps : List Token} {code : TypeCode} {name : String} {parameters : List VarDecl}
      (typed : Typed ts (code, name))
      (derives : Bracketed .openParen .closeParen (Listed Parameter) ps parameters) :
      Signature (ts ++ ps) (code, name, parameters)

/-- The members of an interface. -/
inductive Contracts : List Token → List MethodDecl → Prop where
  | nil : Contracts [] []
  | cons {m : Token} {ss ts : List Token} {code : TypeCode} {name : String}
      {parameters : List VarDecl} {others : List MethodDecl} (kind : m.kind = .keyword .methodWord)
      (signature : Signature ss (code, name, parameters)) (rest : Contracts ts others) :
      Contracts (m :: ss ++ ts) (⟨name, parameters, [], code, none, false⟩ :: others)

/-- A name. -/
inductive Named : List Token → String → Prop where
  | mk {t : Token} (name : t.isName) : Named [t] t.lexeme

/-- The superclass and the interfaces of a class. -/
inductive Ancestors : List Token → Option String × List String → Prop where
  | none : Ancestors [] (none, [])
  | superclass {caret : Token} {ts : List Token} {name : String} (kind : caret.kind = .symbol .caret)
      (named : Named ts name) : Ancestors (caret :: ts) (some name, [])
  | interfaces {caret comma : Token} {ts us : List Token} {name : String} {names : List String}
      (kind : caret.kind = .symbol .caret) (named : Named ts name)
      (separates : comma.kind = .symbol .comma) (others : Separated Named us names) :
      Ancestors (caret :: ts ++ comma :: us) (some name, names)

/-- Modifiers in any order, at most one for the visibility and one for statics. -/
inductive Modifiers : List Token → Option Visibility → Bool → Prop where
  | none : Modifiers [] none false
  | shown {t : Token} {ts : List Token} {isStatic : Bool} (kind : t.kind = .keyword .publicWord)
      (others : Modifiers ts none isStatic) : Modifiers (t :: ts) (some .shown) isStatic
  | hidden {t : Token} {ts : List Token} {isStatic : Bool} (kind : t.kind = .keyword .privateWord)
      (others : Modifiers ts none isStatic) : Modifiers (t :: ts) (some .hidden) isStatic
  | static {t : Token} {ts : List Token} {visibility : Option Visibility}
      (kind : t.kind = .keyword .staticWord) (others : Modifiers ts visibility false) :
      Modifiers (t :: ts) visibility true

/-! ## Statements -/

/-- An expression can be read here. -/
def Expressible (tokens : List Token) : Prop :=
  ∃ front e rest, tokens = front ++ rest ∧ Assignment front e ∧ Ends rest

/-- The kinds of tokens that begin a statement other than an expression. -/
def leaders : List Token.Kind :=
  [.keyword .ifWord, .keyword .returnWord, .keyword .loopWord, .keyword .tryWord,
   .symbol .openBrace, .number]

/-- A class begins here: its keyword may also be a name. -/
def BeginsClass (tokens : List Token) : Prop :=
  ∃ c t rest, tokens = c :: t :: rest ∧ c.kind = .keyword .classWord ∧ t.isName

mutual

/-- A statement, in front of the tokens named last.  A conditional takes the `else` that comes next,
and a return that gives nothing back stands only where no expression does. -/
inductive Statement : List Token → Stmt → List Token → Prop where
  | ifThen {i : Token} {cs ys rest : List Token} {c : Expr} {yes : Stmt}
      (kind : i.kind = .keyword .ifWord)
      (condition : Bracketed .openParen .closeParen Assignment cs c) (first : Statement ys yes rest)
      (last : ¬ Heads (.keyword .elseWord) rest) : Statement (i :: cs ++ ys) (.ifThen c yes) rest
  | ifElse {i e : Token} {cs ys ns rest : List Token} {c : Expr} {yes no : Stmt}
      (kind : i.kind = .keyword .ifWord)
      (condition : Bracketed .openParen .closeParen Assignment cs c)
      (first : Statement ys yes (e :: ns ++ rest)) (otherwise : e.kind = .keyword .elseWord)
      (second : Statement ns no rest) : Statement (i :: cs ++ ys ++ e :: ns) (.ifElse c yes no) rest
  | loop {l : Token} {cs bs rest : List Token} {c : Expr} {body : Stmt}
      (kind : l.kind = .keyword .loopWord)
      (condition : Bracketed .openParen .closeParen Assignment cs c) (derives : Statement bs body rest) :
      Statement (l :: cs ++ bs) (.loop c body) rest
  | tryHandle {t h : Token} {bs es hs rest : List Token} {body handler : List Stmt} {code : TypeCode}
      {name : String} (kind : t.kind = .keyword .tryWord) (first : Block bs body (h :: es ++ hs ++ rest))
      (handles : h.kind = .keyword .handleWord)
      (exception : Bracketed .openParen .closeParen Typed es (code, name))
      (second : Block hs handler rest) :
      Statement (t :: bs ++ h :: es ++ hs) (.tryHandle body code name handler) rest
  | giveNothing {r : Token} {rest : List Token} (kind : r.kind = .keyword .returnWord)
      (nothing : ¬ Expressible rest) : Statement [r] (.giveBack none) rest
  | giveBack {r : Token} {vs rest : List Token} {e : Expr} (kind : r.kind = .keyword .returnWord)
      (value : Assignment vs e) (ends : Ends rest) : Statement (r :: vs) (.giveBack (some e)) rest
  | block {ts rest : List Token} {body : List Stmt} (derives : Block ts body rest) :
      Statement ts (.block body) rest
  | declare {ts rest : List Token} {decl : VarDecl} (derives : Variable none false ts decl rest) :
      Statement ts (.declare decl) rest
  | expression {ts rest : List Token} {e : Expr} (derives : Assignment ts e) (ends : Ends rest)
      (apart : ∀ kind ∈ leaders, ¬ Heads kind ts) : Statement ts (.expression e) rest

/-- Declarations between braces. -/
inductive Block : List Token → List Stmt → List Token → Prop where
  | mk {first last : Token} {ts rest : List Token} {body : List Stmt}
      (opens : first.kind = .symbol .openBrace) (derives : Body ts body (last :: rest))
      (closes : last.kind = .symbol .closeBrace) : Block (first :: ts ++ [last]) body rest

/-- Declarations one behind the other. -/
inductive Body : List Token → List Stmt → List Token → Prop where
  | nil {rest : List Token} : Body [] [] rest
  | cons {ts us rest : List Token} {s : Stmt} {others : List Stmt}
      (first : Declaration ts s (us ++ rest)) (second : Body us others rest) :
      Body (ts ++ us) (s :: others) rest

/-- An interface, a class or a statement. -/
inductive Declaration : List Token → Stmt → List Token → Prop where
  | interface {j : Token} {ts ms rest : List Token} {name : String} {methods : List MethodDecl}
      (kind : j.kind = .keyword .interfaceWord) (named : Named ts name)
      (derives : Bracketed .openBrace .closeBrace Contracts ms methods) :
      Declaration (j :: ts ++ ms) (.classDecl ⟨name, none, methods, [], [], true⟩) rest
  | classDecl {c first last : Token} {ts as ms rest : List Token} {name : String}
      {superclass : Option String} {interfaces : List String} {members : List Reader.Member}
      (kind : c.kind = .keyword .classWord) (named : Named ts name)
      (ancestors : Ancestors as (superclass, interfaces)) (opens : first.kind = .symbol .openBrace)
      (derives : Members ms members (last :: rest)) (closes : last.kind = .symbol .closeBrace) :
      Declaration (c :: ts ++ as ++ first :: ms ++ [last])
        (.classDecl ⟨name, superclass, members.filterMap Reader.Member.method?,
          members.filterMap Reader.Member.field?, interfaces, false⟩) rest
  | statement {ts rest : List Token} {s : Stmt} (derives : Statement ts s rest)
      (no_class : ¬ BeginsClass (ts ++ rest)) (no_interface : ¬ Heads (.keyword .interfaceWord) ts) :
      Declaration ts s rest

/-- Members of a class one behind the other. -/
inductive Members : List Token → List Reader.Member → List Token → Prop where
  | nil {rest : List Token} : Members [] [] rest
  | method {m : Token} {ms ss bs us rest : List Token} {visibility : Option Visibility}
      {isStatic : Bool} {code : TypeCode} {name : String} {parameters : List VarDecl}
      {body : List Stmt} {others : List Reader.Member} (modifiers : Modifiers ms visibility isStatic)
      (kind : m.kind = .keyword .methodWord) (signature : Signature ss (code, name, parameters))
      (first : Block bs body (us ++ rest)) (second : Members us others rest) :
      Members (ms ++ m :: ss ++ bs ++ us)
        (.method ⟨name, parameters, body, code, visibility, isStatic⟩ :: others) rest
  | field {ms fs us rest : List Token} {visibility : Option Visibility} {isStatic : Bool}
      {decl : VarDecl} {others : List Reader.Member} (modifiers : Modifiers ms visibility isStatic)
      (first : Variable visibility isStatic fs decl (us ++ rest)) (second : Members us others rest) :
      Members (ms ++ fs ++ us) (.field decl :: others) rest

end

end Grammar

open Grammar

namespace Reader

variable {α : Type} {tokens rest : List Token} {t : Token} {what what' : String} {n : Nat}

/-! ## Declarations without statements -/

theorem typeCode_eq_done {code : TypeCode} : typeCode what tokens = .done code rest
    ↔ ∃ t, tokens = t :: rest ∧ t.number?.bind typeCode? = some code := by
  unfold typeCode
  rw [Reading.andThen_eq_done]
  constructor
  · rintro ⟨t, mid, taken, final⟩
    obtain ⟨rfl, -⟩ := expectToken_eq_done.1 taken
    split at final
    · next found =>
      obtain ⟨rfl, rfl⟩ := Reading.done.inj final
      exact ⟨t, rfl, found⟩
    · nomatch final
  · rintro ⟨t, rfl, found⟩
    obtain ⟨value, reads, -⟩ := Option.bind_eq_some_iff.1 found
    exact ⟨t, rest, expectToken_eq_done.2 ⟨rfl, kind_of_number? reads⟩, by simp [found]⟩

theorem typed_of_read {code : TypeCode} {ident : String} {mid mid' : List Token}
    (typed : typeCode what tokens = .done code mid) (named : name what' mid = .done ident mid') :
    ∃ ts, tokens = ts ++ mid' ∧ Typed ts (code, ident) := by
  obtain ⟨c, rfl, found⟩ := typeCode_eq_done.1 typed
  obtain ⟨t, rfl, isName, rfl⟩ := name_eq_done.1 named
  exact ⟨[c, t], rfl, .mk found isName⟩

theorem reads_varDecl (visibility : Option Visibility) (isStatic : Bool) :
    Reads (varDecl visibility isStatic) (Variable visibility isStatic) := by
  intro tokens decl rest read
  obtain ⟨code, mid, typed, later⟩ := bind_eq_done.1 read
  obtain ⟨ident, mid', named, later'⟩ := bind_eq_done.1 later
  obtain ⟨ts, rfl, derives⟩ := typed_of_read typed named
  rw [acceptThen_eq] at later'
  split at later'
  · next heads =>
    obtain ⟨equals, vs, rfl, kind⟩ := heads
    obtain ⟨e, mid'', taken, final⟩ := bind_eq_done.1 later'
    obtain ⟨rfl, rfl⟩ := pure_eq_done.1 final
    obtain ⟨vs, rfl, value, ends⟩ := reads_expression taken
    exact ⟨ts ++ equals :: vs, by simp, .initialized derives kind value ends⟩
  · next other =>
    obtain ⟨rfl, rfl⟩ := pure_eq_done.1 later'
    exact ⟨ts, rfl, .plain derives other⟩

theorem reads_parameter : Reads parameter fun ts decl _ => Parameter ts decl := by
  intro tokens decl rest read
  obtain ⟨code, mid, typed, later⟩ := bind_eq_done.1 read
  obtain ⟨ident, mid', named, final⟩ := bind_eq_done.1 later
  obtain ⟨rfl, rfl⟩ := pure_eq_done.1 final
  obtain ⟨ts, rfl, derives⟩ := typed_of_read typed named
  exact ⟨ts, rfl, .mk derives⟩

theorem reads_signature : Reads signature fun ts s _ => Signature ts s := by
  intro tokens s rest read
  obtain ⟨code, mid, typed, later⟩ := bind_eq_done.1 read
  obtain ⟨ident, mid', named, later'⟩ := bind_eq_done.1 later
  obtain ⟨u, mid'', opened, later''⟩ := bind_eq_done.1 later'
  obtain ⟨parameters, last, taken, final⟩ := bind_eq_done.1 later''
  obtain ⟨rfl, rfl⟩ := pure_eq_done.1 final
  obtain ⟨ts, rfl, derives⟩ := typed_of_read typed named
  obtain ⟨opening, rfl, opens⟩ := expect_eq_done.1 opened
  obtain ⟨ps, rfl, bracketed⟩ := bracketed_of_reads reads_parameter opens taken
  exact ⟨ts ++ opening :: ps, by simp, .mk derives bracketed⟩

theorem reads_interfaceMembers (n : Nat) :
    Reads (interfaceMembers n) fun ts methods _ => Contracts ts methods := by
  induction n with
  | zero => nofun
  | succ n ih =>
    intro tokens methods rest read
    rw [interfaceMembers_succ] at read
    split at read
    · obtain ⟨rfl, rfl⟩ := Reading.done.inj read
      exact ⟨[], rfl, .nil⟩
    · split at read
      · next heads =>
        obtain ⟨m, mid, rfl, kind⟩ := heads
        obtain ⟨⟨code, ident, parameters⟩, mid', signed, later⟩ := bind_eq_done.1 read
        obtain ⟨others, mid'', taken, final⟩ := bind_eq_done.1 later
        obtain ⟨rfl, rfl⟩ := pure_eq_done.1 final
        obtain ⟨ss, rfl, signature⟩ := reads_signature signed
        obtain ⟨ts, rfl, contracts⟩ := ih taken
        exact ⟨m :: ss ++ ts, by simp, .cons kind signature contracts⟩
      · nomatch read

theorem reads_name : Reads (name what) fun ts ident _ => Named ts ident := by
  intro tokens ident rest read
  obtain ⟨t, rfl, isName, rfl⟩ := name_eq_done.1 read
  exact ⟨[t], rfl, .mk isName⟩

theorem reads_interfaceDecl (kind : t.kind = .keyword .interfaceWord) :
    Reads interfaceDecl fun ts s rest => Declaration (t :: ts) s rest := by
  intro tokens s rest read
  obtain ⟨ident, mid, taken, later⟩ := bind_eq_done.1 read
  obtain ⟨u, mid', opened, later'⟩ := bind_eq_done.1 later
  obtain ⟨methods, mid'', inside, later''⟩ := bind_eq_done.1 later'
  obtain ⟨u', last, closed, final⟩ := bind_eq_done.1 later''
  obtain ⟨rfl, rfl⟩ := pure_eq_done.1 final
  obtain ⟨ts, rfl, named⟩ := reads_name taken
  obtain ⟨opening, rfl, opens⟩ := expect_eq_done.1 opened
  obtain ⟨ms, rfl, contracts⟩ := reads_interfaceMembers _ inside
  obtain ⟨closing, rfl, closes⟩ := expect_eq_done.1 closed
  exact ⟨ts ++ (opening :: ms ++ [closing]), by simp, .interface kind named (.mk opens contracts closes)⟩

theorem reads_ancestors : Reads ancestors fun ts as _ => Ancestors ts as := by
  intro tokens as rest read
  rw [ancestors, acceptThen_eq] at read
  split at read
  · next heads =>
    obtain ⟨caret, mid, rfl, kind⟩ := heads
    obtain ⟨superclass, mid', taken, later⟩ := bind_eq_done.1 read
    obtain ⟨ts, rfl, named⟩ := reads_name taken
    rw [acceptThen_eq] at later
    split at later
    · next heads =>
      obtain ⟨comma, us, rfl, separates⟩ := heads
      obtain ⟨interfaces, mid'', others, final⟩ := bind_eq_done.1 later
      obtain ⟨rfl, rfl⟩ := pure_eq_done.1 final
      obtain ⟨us, rfl, separated⟩ := reads_commaItems reads_name _ others
      exact ⟨caret :: ts ++ comma :: us, by simp, .interfaces kind named separates separated⟩
    · obtain ⟨rfl, rfl⟩ := pure_eq_done.1 later
      exact ⟨caret :: ts, rfl, .superclass kind named⟩
  · obtain ⟨rfl, rfl⟩ := pure_eq_done.1 read
    exact ⟨[], rfl, .none⟩

/-- Of each sort one modifier at most is found in all. -/
theorem modifiers_of_read {modified : Option Visibility × Bool} (visibility : Option Visibility)
    (isStatic : Bool) (read : modifiers visibility isStatic tokens = .done modified rest) :
    ∃ ts more also, tokens = ts ++ rest ∧ Modifiers ts more also
      ∧ modified = (visibility.or more, isStatic || also)
      ∧ (visibility.isSome → more = none) ∧ (isStatic → also = false) := by
  induction tokens generalizing visibility isStatic with
  | nil =>
    obtain ⟨rfl, rfl⟩ := Reading.done.inj read
    exact ⟨[], none, false, rfl, .none, by simp, fun _ => rfl, fun _ => rfl⟩
  | cons t tokens ih =>
    unfold modifiers at read
    -- a modifier is taken only if none of its sort has been, and none of its sort follows
    split at read
    · next kind =>
      obtain ⟨ts, more, also, rfl, derives, rfl, once, static⟩ := ih _ _ read
      obtain rfl := once rfl
      exact ⟨t :: ts, some .shown, also, rfl, .shown kind derives, rfl, nofun, static⟩
    · next kind =>
      obtain ⟨ts, more, also, rfl, derives, rfl, once, static⟩ := ih _ _ read
      obtain rfl := once rfl
      exact ⟨t :: ts, some .hidden, also, rfl, .hidden kind derives, rfl, nofun, static⟩
    · next kind =>
      obtain ⟨ts, more, also, rfl, derives, rfl, once, static⟩ := ih _ _ read
      obtain rfl := static rfl
      exact ⟨t :: ts, more, true, rfl, .static kind derives, rfl, once, nofun⟩
    · obtain ⟨rfl, rfl⟩ := Reading.done.inj read
      exact ⟨[], none, false, rfl, .none, by simp, fun _ => rfl, fun _ => rfl⟩

theorem reads_modifiers :
    Reads (modifiers none false) fun ts modified _ => Modifiers ts modified.1 modified.2 := by
  intro tokens modified rest read
  obtain ⟨ts, more, also, rfl, derives, rfl, -, -⟩ := modifiers_of_read none false read
  exact ⟨ts, rfl, by simpa using derives⟩

/-- Behind `return` stands nothing only where no expression can be read. -/
theorem reads_giveBack (kind : t.kind = .keyword .returnWord) :
    Reads giveBack fun ts s rest => Statement (t :: ts) s rest := by
  intro tokens s rest read
  rw [giveBack_eq] at read
  split at read
  · next closes =>
    have nothing : ¬ Expressible tokens := by
      rintro ⟨front, e, behind, rfl, derives, -⟩
      exact derives.begins.append.not_heads (by decide) closes
    obtain ⟨rfl, rfl⟩ := Reading.done.inj read
    exact ⟨[], rfl, .giveNothing kind nothing⟩
  · obtain ⟨value, mid, taken, final⟩ := bind_eq_done.1 read
    obtain ⟨rfl, rfl⟩ := pure_eq_done.1 final
    unfold optional at taken
    split at taken
    · next e mid' done =>
      obtain ⟨rfl, rfl⟩ := Reading.done.inj taken
      obtain ⟨vs, rfl, derives, ends⟩ := reads_expression done
      exact ⟨vs, rfl, .giveBack kind derives ends⟩
    · next refused =>
      -- the tokens that were tried are all given back
      obtain ⟨rfl, rfl⟩ := Reading.done.inj taken
      have nothing : ¬ Expressible tokens := by
        rintro ⟨front, e, behind, rfl, derives, ends⟩
        simp [expression_of_derives derives ends] at refused
      exact ⟨[], rfl, .giveNothing kind nothing⟩
    · nomatch taken

end Reader

/-! ## Statements -/

/-- Whatever is done without a complaint is a derivation of the tokens that were taken. -/
def NotingReader.Reads {α : Type} (reader : NotingReader α)
    (derives : List Token → α → List Token → Prop) : Prop :=
  ∀ ⦃tokens v rest⦄, reader tokens = (.done v rest, []) →
    ∃ front, tokens = front ++ rest ∧ derives front v rest

namespace Reader

/-- A declaration that has not been left out. -/
def Declared (ts : List Token) (declared : Option Stmt) (rest : List Token) : Prop :=
  ∃ s, declared = some s ∧ Declaration ts s rest

variable {inner : NotingReader Stmt} {declaration : NotingReader (Option Stmt)}
  {tokens rest : List Token} {t : Token}

theorem reads_blockBody (reads : declaration.Reads Declared) (n : Nat) :
    (blockBody declaration n).Reads Body := by
  induction n with
  | zero => nofun
  | succ n ih =>
    intro tokens body rest read
    rw [blockBody_succ] at read
    split at read
    · obtain ⟨rfl, rfl⟩ := Reading.done.inj (congrArg Prod.fst read)
      exact ⟨[], rfl, .nil⟩
    · obtain ⟨first, mid, taken, later⟩ := NotingReader.bind_eq_done.1 read
      obtain ⟨others, mid', taken', final⟩ := NotingReader.bind_eq_done.1 later
      obtain ⟨rfl, rfl⟩ := NotingReader.pure_eq_done.1 final
      obtain ⟨ts, rfl, s, rfl, derives⟩ := reads taken
      obtain ⟨us, rfl, derives'⟩ := ih taken'
      exact ⟨ts ++ us, by simp, .cons derives derives'⟩

theorem reads_block (reads : declaration.Reads Declared) (opens : t.kind = .symbol .openBrace) :
    (block declaration).Reads fun ts body rest => Block (t :: ts) body rest := by
  intro tokens body rest read
  obtain ⟨body', mid, inside, later⟩ := NotingReader.bind_eq_done.1 read
  obtain ⟨u, mid', closed, final⟩ := NotingReader.lift_bind_eq_done.1 later
  obtain ⟨rfl, rfl⟩ := NotingReader.pure_eq_done.1 final
  obtain ⟨last, rfl, closes⟩ := expect_eq_done.1 closed
  obtain ⟨ts, rfl, derives⟩ := reads_blockBody reads _ inside
  exact ⟨ts ++ [last], by simp, .mk opens derives closes⟩

/-- A condition between parentheses. -/
theorem conditioned_of_read {next : Expr → NotingReader Stmt} {opens closes : String} {s : Stmt}
    (read : (do
      expect .openParen opens
      let condition ← expression
      expect .closeParen closes
      next condition : NotingReader Stmt) tokens = (.done s rest, [])) :
    ∃ cs c mid, tokens = cs ++ mid ∧ Bracketed .openParen .closeParen Assignment cs c
      ∧ next c mid = (.done s rest, []) := by
  obtain ⟨u, mid, opened, later⟩ := NotingReader.lift_bind_eq_done.1 read
  obtain ⟨c, mid', taken, later'⟩ := NotingReader.lift_bind_eq_done.1 later
  obtain ⟨u', mid'', closed, final⟩ := NotingReader.lift_bind_eq_done.1 later'
  obtain ⟨first, rfl, opens⟩ := expect_eq_done.1 opened
  obtain ⟨cs, rfl, derives, -⟩ := reads_expression taken
  obtain ⟨last, rfl, closes⟩ := expect_eq_done.1 closed
  exact ⟨first :: cs ++ [last], c, mid'', by simp, .mk opens derives closes, final⟩

/-- The `else` that comes next belongs to the conditional. -/
theorem reads_conditional (reads : inner.Reads Statement) (kind : t.kind = .keyword .ifWord) :
    (conditional inner).Reads fun ts s rest => Statement (t :: ts) s rest := by
  intro tokens s rest read
  obtain ⟨cs, c, mid, rfl, condition, later⟩ := conditioned_of_read read
  obtain ⟨yes, mid', taken, later'⟩ := NotingReader.bind_eq_done.1 later
  obtain ⟨ys, rfl, first⟩ := reads taken
  rw [NotingReader.acceptThen_eq] at later'
  split at later'
  · next heads =>
    obtain ⟨e, behind, rfl, otherwise⟩ := heads
    obtain ⟨no, mid'', taken', final⟩ := NotingReader.bind_eq_done.1 later'
    obtain ⟨rfl, rfl⟩ := NotingReader.pure_eq_done.1 final
    obtain ⟨ns, rfl, second⟩ := reads taken'
    exact ⟨cs ++ ys ++ e :: ns, by simp, .ifElse kind condition first otherwise second⟩
  · next last =>
    obtain ⟨rfl, rfl⟩ := NotingReader.pure_eq_done.1 later'
    exact ⟨cs ++ ys, by simp, .ifThen kind condition first last⟩

theorem reads_loop (reads : inner.Reads Statement) (kind : t.kind = .keyword .loopWord) :
    (loop inner).Reads fun ts s rest => Statement (t :: ts) s rest := by
  intro tokens s rest read
  obtain ⟨cs, c, mid, rfl, condition, later⟩ := conditioned_of_read read
  obtain ⟨body, mid', taken, final⟩ := NotingReader.bind_eq_done.1 later
  obtain ⟨rfl, rfl⟩ := NotingReader.pure_eq_done.1 final
  obtain ⟨bs, rfl, derives⟩ := reads taken
  exact ⟨cs ++ bs, by simp, .loop kind condition derives⟩

theorem reads_tryHandle (reads : declaration.Reads Declared) (kind : t.kind = .keyword .tryWord) :
    (tryHandle declaration).Reads fun ts s rest => Statement (t :: ts) s rest := by
  intro tokens s rest read
  obtain ⟨u₁, mid₁, opened, later₁⟩ := NotingReader.lift_bind_eq_done.1 read
  obtain ⟨body, mid₂, inside, later₂⟩ := NotingReader.bind_eq_done.1 later₁
  obtain ⟨h, mid₃, handled, later₃⟩ := NotingReader.lift_bind_eq_done.1 later₂
  obtain ⟨u₄, mid₄, opened', later₄⟩ := NotingReader.lift_bind_eq_done.1 later₃
  obtain ⟨code, mid₅, typed, later₅⟩ := NotingReader.lift_bind_eq_done.1 later₄
  obtain ⟨ident, mid₆, named, later₆⟩ := NotingReader.lift_bind_eq_done.1 later₅
  obtain ⟨u₇, mid₇, closed, later₇⟩ := NotingReader.lift_bind_eq_done.1 later₆
  obtain ⟨u₈, mid₈, opened'', later₈⟩ := NotingReader.lift_bind_eq_done.1 later₇
  obtain ⟨handler, mid₉, inside', final⟩ := NotingReader.bind_eq_done.1 later₈
  obtain ⟨rfl, rfl⟩ := NotingReader.pure_eq_done.1 final
  obtain ⟨brace, rfl, opens⟩ := expect_eq_done.1 opened
  obtain ⟨bs, rfl, first⟩ := reads_block reads opens inside
  obtain ⟨rfl, handles⟩ := expectToken_eq_done.1 handled
  obtain ⟨paren, rfl, opens'⟩ := expect_eq_done.1 opened'
  obtain ⟨es, rfl, exception⟩ := typed_of_read typed named
  obtain ⟨paren', rfl, closes⟩ := expect_eq_done.1 closed
  obtain ⟨brace', rfl, opens''⟩ := expect_eq_done.1 opened''
  obtain ⟨hs, rfl, second⟩ := reads_block reads opens'' inside'
  refine ⟨brace :: bs ++ h :: (paren :: es ++ [paren']) ++ brace' :: hs, by simp, ?_⟩
  exact .tryHandle kind (by simpa using first) handles (.mk opens' exception closes) second

theorem reads_statement (inner_reads : inner.Reads Statement)
    (declaration_reads : declaration.Reads Declared) :
    (statement inner declaration).Reads Statement := by
  intro tokens s rest read
  cases tokens with
  | nil =>
    rw [statement_nil] at read
    obtain ⟨e, mid, taken, -⟩ := NotingReader.lift_bind_eq_done.1 read
    obtain ⟨ts, empty, derives, -⟩ := reads_expression taken
    obtain ⟨t, ts, rfl, -⟩ := derives.begins
    nomatch empty
  | cons t tokens =>
    have behind {reader : NotingReader Stmt} (done : reader tokens = (.done s rest, []))
        (reads : reader.Reads fun ts s rest => Statement (t :: ts) s rest) :
        ∃ ts, t :: tokens = ts ++ rest ∧ Statement ts s rest := by
      obtain ⟨ts, rfl, derives⟩ := reads done
      exact ⟨t :: ts, rfl, derives⟩
    rw [statement_cons] at read
    split at read
    · next kind => exact behind read (reads_conditional inner_reads kind)
    · next kind =>
      obtain ⟨ts, rfl, derives⟩ := reads_giveBack kind (congrArg Prod.fst read)
      exact ⟨t :: ts, rfl, derives⟩
    · next kind => exact behind read (reads_loop inner_reads kind)
    · next kind => exact behind read (reads_tryHandle declaration_reads kind)
    · next kind =>
      obtain ⟨body, mid, taken, final⟩ := NotingReader.bind_eq_done.1 read
      obtain ⟨rfl, rfl⟩ := NotingReader.pure_eq_done.1 final
      obtain ⟨ts, rfl, derives⟩ := reads_block declaration_reads kind taken
      exact ⟨t :: ts, rfl, .block derives⟩
    · obtain ⟨decl, mid, taken, final⟩ := NotingReader.lift_bind_eq_done.1 read
      obtain ⟨rfl, rfl⟩ := NotingReader.pure_eq_done.1 final
      obtain ⟨ts, split, derives⟩ := reads_varDecl none false taken
      exact ⟨ts, split, .declare derives⟩
    · next no_if no_return no_loop no_try no_block no_number =>
      obtain ⟨e, mid, taken, final⟩ := NotingReader.lift_bind_eq_done.1 read
      obtain ⟨rfl, rfl⟩ := NotingReader.pure_eq_done.1 final
      obtain ⟨ts, split, derives, ends⟩ := reads_expression taken
      refine ⟨ts, split, .expression derives ends fun kind leads heads => ?_⟩
      obtain ⟨first, ts, rfl, rfl⟩ := heads
      obtain ⟨rfl, rfl⟩ := List.cons.inj split
      simp only [leaders, List.mem_cons, List.not_mem_nil, or_false] at leads
      rcases leads with kind | kind | kind | kind | kind | kind
      · exact no_if kind
      · exact no_return kind
      · exact no_loop kind
      · exact no_try kind
      · exact no_block kind
      · exact no_number kind

/-! ## Declarations -/

theorem reads_method (reads : declaration.Reads Declared) (visibility : Option Visibility)
    (isStatic : Bool) : (method declaration visibility isStatic).Reads fun ts decl rest =>
      ∃ ss bs code ident parameters body, ts = ss ++ bs ∧ Signature ss (code, ident, parameters)
        ∧ Block bs body rest ∧ decl = ⟨ident, parameters, body, code, visibility, isStatic⟩ := by
  intro tokens decl rest read
  obtain ⟨⟨code, ident, parameters⟩, mid, signed, later⟩ := NotingReader.lift_bind_eq_done.1 read
  obtain ⟨u, mid', opened, later'⟩ := NotingReader.lift_bind_eq_done.1 later
  obtain ⟨body, mid'', inside, final⟩ := NotingReader.bind_eq_done.1 later'
  obtain ⟨rfl, rfl⟩ := NotingReader.pure_eq_done.1 final
  obtain ⟨ss, rfl, signature⟩ := reads_signature signed
  obtain ⟨brace, rfl, opens⟩ := expect_eq_done.1 opened
  obtain ⟨bs, rfl, derives⟩ := reads_block reads opens inside
  exact ⟨ss ++ brace :: bs, by simp, ss, brace :: bs, code, ident, parameters, body, rfl, signature,
    derives, rfl⟩

theorem reads_members (reads : declaration.Reads Declared) (n : Nat) :
    (members declaration n).Reads Members := by
  induction n with
  | zero => nofun
  | succ n ih =>
    intro tokens body rest read
    rw [members_succ] at read
    split at read
    · obtain ⟨rfl, rfl⟩ := Reading.done.inj (congrArg Prod.fst read)
      exact ⟨[], rfl, .nil⟩
    · obtain ⟨modified, mid, taken, later⟩ := NotingReader.lift_bind_eq_done.1 read
      obtain ⟨ms, rfl, modifiers⟩ := reads_modifiers taken
      unfold membersFrom at later
      split at later
      · next heads =>
        obtain ⟨m, behind, rfl, kind⟩ := heads
        obtain ⟨first, mid', taken', later'⟩ := NotingReader.bind_eq_done.1 later
        obtain ⟨others, mid'', taken'', final⟩ := NotingReader.bind_eq_done.1 later'
        obtain ⟨rfl, rfl⟩ := NotingReader.pure_eq_done.1 final
        obtain ⟨_, rfl, ss, bs, code, ident, parameters, body, rfl, signature, block, rfl⟩ :=
          reads_method reads _ _ taken'
        obtain ⟨us, rfl, derives⟩ := ih taken''
        exact ⟨ms ++ m :: ss ++ bs ++ us, by simp, .method modifiers kind signature block derives⟩
      · split at later
        · obtain ⟨first, mid', taken', later'⟩ := NotingReader.lift_bind_eq_done.1 later
          obtain ⟨others, mid'', taken'', final⟩ := NotingReader.bind_eq_done.1 later'
          obtain ⟨rfl, rfl⟩ := NotingReader.pure_eq_done.1 final
          obtain ⟨fs, rfl, field⟩ := reads_varDecl _ _ taken'
          obtain ⟨us, rfl, derives⟩ := ih taken''
          exact ⟨ms ++ fs ++ us, by simp, .field modifiers field derives⟩
        · nomatch congrArg Prod.fst later

theorem reads_classDecl (reads : declaration.Reads Declared) (kind : t.kind = .keyword .classWord) :
    (classDecl declaration).Reads fun ts s rest => Declaration (t :: ts) s rest := by
  intro tokens s rest read
  obtain ⟨ident, mid₁, taken, later₁⟩ := NotingReader.lift_bind_eq_done.1 read
  obtain ⟨⟨superclass, interfaces⟩, mid₂, taken', later₂⟩ := NotingReader.lift_bind_eq_done.1 later₁
  obtain ⟨u₃, mid₃, opened, later₃⟩ := NotingReader.lift_bind_eq_done.1 later₂
  obtain ⟨body, mid₄, inside, later₄⟩ := NotingReader.bind_eq_done.1 later₃
  obtain ⟨u₅, mid₅, closed, final⟩ := NotingReader.lift_bind_eq_done.1 later₄
  obtain ⟨rfl, rfl⟩ := NotingReader.pure_eq_done.1 final
  obtain ⟨ts, rfl, named⟩ := reads_name taken
  obtain ⟨as, rfl, ancestors⟩ := reads_ancestors taken'
  obtain ⟨opening, rfl, opens⟩ := expect_eq_done.1 opened
  obtain ⟨ms, rfl, derives⟩ := reads_members reads _ inside
  obtain ⟨closing, rfl, closes⟩ := expect_eq_done.1 closed
  exact ⟨ts ++ as ++ opening :: ms ++ [closing], by simp,
    .classDecl kind named ancestors opens derives closes⟩

theorem startsClass_iff : startsClass tokens ↔ BeginsClass tokens := by
  unfold startsClass BeginsClass
  split
  · next first second behind =>
    constructor
    · intro starts
      obtain ⟨kind, isName⟩ : first.kind = .keyword .classWord ∧ second.isName := by
        simpa using starts
      exact ⟨first, second, behind, rfl, kind, isName⟩
    · rintro ⟨_, _, _, ⟨⟩, kind, isName⟩
      simp [kind, isName]
  · next other =>
    constructor
    · nofun
    · rintro ⟨c, t, rest, rfl, -⟩
      exact absurd rfl (other c t rest)

theorem reads_anyDeclaration (inner_reads : inner.Reads Statement)
    (declaration_reads : declaration.Reads Declared) :
    (anyDeclaration inner declaration).Reads Declaration := by
  intro tokens s rest read
  unfold anyDeclaration at read
  split at read
  · next starts =>
    obtain ⟨c, t, behind, rfl, kind, -⟩ := startsClass_iff.1 starts
    obtain ⟨ts, split, derives⟩ := reads_classDecl declaration_reads kind read
    exact ⟨c :: ts, congrArg (c :: ·) split, derives⟩
  · next no_class =>
    split at read
    · next starts =>
      cases tokens with
      | nil => nomatch starts
      | cons j behind =>
        have kind : j.kind = .keyword .interfaceWord := by simpa using starts
        obtain ⟨ts, rfl, derives⟩ := reads_interfaceDecl kind (congrArg Prod.fst read)
        exact ⟨j :: ts, rfl, derives⟩
    · next no_interface =>
      obtain ⟨ts, rfl, derives⟩ := reads_statement inner_reads declaration_reads read
      refine ⟨ts, rfl, .statement derives (mt startsClass_iff.2 no_class) ?_⟩
      rintro ⟨j, behind, rfl, kind⟩
      exact no_interface (by simp [kind])

theorem reads_recovering {reader : NotingReader Stmt} (reads : reader.Reads Declaration)
    (inBlock : Bool) : (recovering inBlock reader).Reads Declared := by
  intro tokens declared rest read
  unfold recovering at read
  split at read
  · next s rest' notes done =>
    simp only [Prod.mk.injEq, Reading.done.injEq] at read
    obtain ⟨⟨rfl, rfl⟩, rfl⟩ := read
    obtain ⟨ts, rfl, derives⟩ := reads done
    exact ⟨ts, rfl, s, rfl, derives⟩
  · simp at read
  · nomatch congrArg Prod.fst read

/-- What is taken as a statement or as a declaration without a complaint is derived. -/
theorem reads_statementAt (depth : Nat) :
    (statementAt depth).Reads Statement ∧ ∀ inBlock, (declarationAt depth inBlock).Reads Declared := by
  -- what a statement contains is nested one level less deep
  induction depth with
  | zero =>
    constructor
    · nofun
    · intro inBlock
      nofun
  | succ depth ih =>
    constructor
    · rw [statementAt]
      exact reads_statement ih.1 (ih.2 true)
    · intro inBlock
      rw [declarationAt]
      exact reads_recovering (reads_anyDeclaration ih.1 (ih.2 true)) inBlock

theorem reads_topDeclaration : topDeclaration.Reads Declared := by
  intro tokens declared rest read
  exact (reads_statementAt _).2 false read

theorem reads_program (n : Nat) : (program n).Reads Body := by
  induction n with
  | zero => nofun
  | succ n ih =>
    intro tokens body rest read
    rw [program_succ] at read
    split at read
    · obtain ⟨rfl, rfl⟩ := Reading.done.inj (congrArg Prod.fst read)
      exact ⟨[], rfl, .nil⟩
    · obtain ⟨first, mid, taken, later⟩ := NotingReader.bind_eq_done.1 read
      obtain ⟨others, mid', taken', final⟩ := NotingReader.bind_eq_done.1 later
      obtain ⟨rfl, rfl⟩ := NotingReader.pure_eq_done.1 final
      obtain ⟨ts, rfl, s, rfl, derives⟩ := reads_topDeclaration taken
      obtain ⟨us, rfl, derives'⟩ := ih taken'
      exact ⟨ts ++ us, by simp, .cons derives derives'⟩

end Reader

theorem sortDiagnostics_eq_nil {diagnostics : List Diagnostic} :
    sortDiagnostics diagnostics = [] ↔ diagnostics = [] := by
  rw [← List.length_eq_zero_iff, sortDiagnostics, List.length_mergeSort, List.length_eq_zero_iff]

/-- A text without complaints is nothing but derivations of its statements, one behind the other. -/
theorem Source.read_derives {text : String} (clean : (Source.read text).diagnostics = []) :
    Body (Scan.ofText text).tokens (Source.read text).statements [] := by
  obtain ⟨statements, done⟩ := Reader.program_done (Scan.ofText text).tokens
  have silent : (NotingReader.bounded Reader.program (Scan.ofText text).tokens).2 = [] := by
    have none_noted : (Scan.ofText text).diagnostics
        ++ (NotingReader.bounded Reader.program (Scan.ofText text).tokens).2.map
          (Refusal.diagnostic (Scan.ofText text).stop) = [] := sortDiagnostics_eq_nil.1 clean
    exact List.map_eq_nil_iff.1 (List.append_eq_nil_iff.1 none_noted).2
  have read : (Source.read text).statements = statements := by
    simp only [Source.read, done]
  obtain ⟨ts, split, derives⟩ := Reader.reads_program _ (Prod.ext done silent)
  rw [read, split, List.append_nil]
  exact derives

theorem Source.read_derives_nested :
    (Source.read "i(a)i(b)x e\x7br\x7d").diagnostics = []
      ∧ (Source.read "i(a)i(b)x e\x7br\x7d").statements.length = 1
      ∧ Body (Scan.ofText "i(a)i(b)x e\x7br\x7d").tokens
        (Source.read "i(a)i(b)x e\x7br\x7d").statements [] := by
  have clean : (Source.read "i(a)i(b)x e\x7br\x7d").diagnostics = [] := by decide +kernel
  exact ⟨clean, by decide +kernel, Source.read_derives clean⟩

end Monogram
