/-!
# Reading quoted text

Strings come in four forms: between quotes or apostrophes, on one line or on several. Each form
is a small machine that takes one character at a time; `Move` says what a character does, and
`run` follows the moves to the end of the string. Every reader answers the text that the string
stands for and what follows the string, or nothing if the string is not well formed.
-/

namespace TemplateCache.Toml.Read

/-! ## Machines -/

/-- What a character does inside a string. -/
inductive Move (σ : Type) where
  /-- It is taken and stands for some text. -/
  | put (out : List Char) (next : σ)
  /-- It is taken and ends the string. -/
  | close (out : List Char)
  /-- The string ended before it. -/
  | closeBefore (out : List Char)
  /-- It may not stand here. -/
  | refuse

/-- The text of a string and what follows it, from a state of its machine. -/
def run {σ : Type} (step : σ → Char → Move σ) (atEnd : σ → Option (List Char)) :
    σ → List Char → Option (List Char × List Char)
  | s, [] => (atEnd s).map fun out => (out, [])
  | s, c :: rest =>
      match step s c with
      | .put out next => (run step atEnd next rest).map fun r => (out ++ r.1, r.2)
      | .close out => some (out, rest)
      | .closeBefore out => some (out, c :: rest)
      | .refuse => none

/-! ## Characters -/

/-- The characters of strings and comments: no control but the tab. -/
def isTextChar (c : Char) : Bool := c == '\t' || (0x20 ≤ c.toNat && c.toNat != 0x7F)

def isBlank (c : Char) : Bool := c == ' ' || c == '\t'

/-- What a letter or mark after a backslash stands for. -/
def escaped? : Char → Option Char
  | 'b' => some '\x08'
  | 't' => some '\t'
  | 'n' => some '\n'
  | 'f' => some '\x0C'
  | 'r' => some '\r'
  | '"' => some '"'
  | '\\' => some '\\'
  | _ => none

/-- The value of a hexadecimal digit in either case. -/
def hexValue? (c : Char) : Option Nat :=
  if c.isDigit then some (c.toNat - 48)
  else if 'a' ≤ c ∧ c ≤ 'f' then some (c.toNat - 87)
  else if 'A' ≤ c ∧ c ≤ 'F' then some (c.toNat - 55)
  else none

/-- The character with a number, if there is one. -/
def char? (n : Nat) : Option Char := if n.isValidChar then some (Char.ofNat n) else none

/-! ## Escapes -/

/-- A place inside an escape: after the backslash, or among the digits of a number. -/
inductive Escape where
  | start
  | number (left value : Nat)

/-- What a character does inside an escape; `back` is the state after it. -/
def Escape.step {σ : Type} (inside : Escape → σ) (back : σ) : Escape → Char → Move σ
  | .start, c =>
      match escaped? c with
      | some out => .put [out] back
      | none =>
          if c = 'u' then .put [] (inside (.number 4 0))
          else if c = 'U' then .put [] (inside (.number 8 0))
          else .refuse
  | .number left value, c =>
      match hexValue? c with
      | none => .refuse
      | some digit =>
          let value := 16 * value + digit
          if left = 1 then
            match char? value with
            | some out => .put [out] back
            | none => .refuse
          else .put [] (inside (.number (left - 1) value))

/-! ## Strings on one line -/

inductive Basic where
  | plain
  | escape (e : Escape)

def Basic.step : Basic → Char → Move Basic
  | .plain, c =>
      if c = '"' then .close []
      else if c = '\\' then .put [] (.escape .start)
      else if isTextChar c then .put [c] .plain
      else .refuse
  | .escape e, c => e.step .escape .plain c

/-- A string after its opening quote. -/
def basic (text : List Char) : Option (List Char × List Char) :=
  run Basic.step (fun _ => none) .plain text

def literalStep (_ : Unit) (c : Char) : Move Unit :=
  if c = '\'' then .close [] else if isTextChar c then .put [c] () else .refuse

/-- A string after its opening apostrophe. -/
def literal (text : List Char) : Option (List Char × List Char) :=
  run literalStep (fun _ => none) () text

/-! ## Strings on several lines -/

/-- A place in a string on several lines. -/
inductive Lines where
  | plain
  /-- After some marks that may end the string. -/
  | marks (count : Nat)
  /-- After a carriage return that a line feed must follow. -/
  | carriage
  | escape (e : Escape)
  /-- After a backslash and blanks that a line end must follow. -/
  | joining
  | joiningCarriage
  /-- Among the blanks and line ends after a joined line. -/
  | skipping
  | skippingCarriage

/-- What a character does in the middle of a line, after some text still owed. -/
def Lines.plainStep (mark : Char) (escapes : Bool) (owed : List Char) (c : Char) : Move Lines :=
  if c = mark then .put owed (.marks 1)
  else if c = '\\' ∧ escapes then .put owed (.escape .start)
  else if c = '\n' then .put (owed ++ ['\n']) .plain
  else if c = '\r' then .put owed .carriage
  else if isTextChar c then .put (owed ++ [c]) .plain
  else .refuse

/-- Three marks end a string, and up to two more before them belong to it. -/
def Lines.step (mark : Char) (escapes : Bool) : Lines → Char → Move Lines
  | .plain, c => plainStep mark escapes [] c
  | .marks n, c =>
      if c = mark then if n = 5 then .refuse else .put [] (.marks (n + 1))
      else if n < 3 then plainStep mark escapes (List.replicate n mark) c
      else .closeBefore (List.replicate (n - 3) mark)
  | .carriage, c => if c = '\n' then .put ['\n'] .plain else .refuse
  | .escape .start, c =>
      if isBlank c then .put [] .joining
      else if c = '\n' then .put [] .skipping
      else if c = '\r' then .put [] .joiningCarriage
      else Escape.step .escape .plain .start c
  | .escape e, c => e.step .escape .plain c
  | .joining, c =>
      if isBlank c then .put [] .joining
      else if c = '\n' then .put [] .skipping
      else if c = '\r' then .put [] .joiningCarriage
      else .refuse
  | .joiningCarriage, c => if c = '\n' then .put [] .skipping else .refuse
  | .skipping, c =>
      if isBlank c ∨ c = '\n' then .put [] .skipping
      else if c = '\r' then .put [] .skippingCarriage
      else plainStep mark escapes [] c
  | .skippingCarriage, c => if c = '\n' then .put [] .skipping else .refuse

/-- A text may end right after the marks that end the string. -/
def Lines.atEnd (mark : Char) : Lines → Option (List Char)
  | .marks n => if 3 ≤ n then some (List.replicate (n - 3) mark) else none
  | _ => none

/-- What follows a line end, if one stands first. -/
def dropLineEnd : List Char → List Char
  | '\n' :: rest => rest
  | '\r' :: '\n' :: rest => rest
  | text => text

/-- A string after its three opening marks; a line end right after them does not count. -/
def lines (mark : Char) (escapes : Bool) (text : List Char) : Option (List Char × List Char) :=
  run (Lines.step mark escapes) (Lines.atEnd mark) .plain (dropLineEnd text)

/-! ## Any string -/

/-- A string in whichever form its opening marks say. -/
def string? : List Char → Option (List Char × List Char)
  | '"' :: '"' :: '"' :: rest => lines '"' true rest
  | '"' :: rest => basic rest
  | '\'' :: '\'' :: '\'' :: rest => lines '\'' false rest
  | '\'' :: rest => literal rest
  | _ => none

end TemplateCache.Toml.Read
