/-! # Inked text

A drawing is a list of rows, a row a list of inked pieces of text.

* `Row.plain` — without color.
* `Row.colored` — with the control sequences of a terminal.
-/

namespace Monogram

/-- What a piece of a drawing is for, which decides its color. -/
inductive Hue where
  /-- The marked text and what points at it. -/
  | accent
  /-- The frame, and numbers of lines. -/
  | frame
  /-- The frame beside rows that are not lines of the text. -/
  | faintFrame
  /-- Text that is not marked. -/
  | unmarked
deriving DecidableEq, Repr

/-- A piece of text; one without a hue has the color of the terminal. -/
structure Ink where
  hue : Option Hue
  text : String
deriving DecidableEq, Repr

/-- Pieces next to each other. -/
abbrev Row := List Ink

/-- A piece without a hue. -/
def Ink.bare (text : String) : Ink := ⟨none, text⟩

/-- A blank without a hue. -/
def Ink.blank : Ink := .bare " "

/-- The number of a color of a terminal. -/
def Hue.code : Hue → String
  | .accent => "31"
  | .frame => "38;5;246"
  | .faintFrame => "38;5;240"
  | .unmarked => "38;5;249"

/-- A piece between the control sequences that switch its color on and off. -/
def Ink.colored (i : Ink) : String :=
  match i.hue with
  | some hue => "\x1b[" ++ hue.code ++ "m" ++ i.text ++ "\x1b[0m"
  | none => i.text

/-- A row without color. -/
def Row.plain (row : Row) : String :=
  String.join (row.map Ink.text) ++ "\n"

/-- A row in color. -/
def Row.colored (row : Row) : String :=
  String.join (row.map Ink.colored) ++ "\n"

end Monogram
