import TemplateCache.Toml.Read.Quoted

/-!
# Blanks, comments and line ends

What stands between the tokens of a document. Within a line only blanks may stand there; inside
an array also line ends and comments. A statement is followed by blanks and a comment up to the
end of its line.
-/

namespace TemplateCache.Toml.Read

/-- What follows the blanks at the start of a text. -/
def skipBlanks (text : List Char) : List Char := text.dropWhile isBlank

/-- What follows a line end, which must stand first. -/
def lineEnd? : List Char → Option (List Char)
  | '\n' :: rest => some rest
  | '\r' :: '\n' :: rest => some rest
  | _ => none

/-- What follows the line end or is left at the end of the text. -/
def lineEndOrEnd? : List Char → Option (List Char)
  | [] => some []
  | text => lineEnd? text

/-- What follows a comment, if one stands first. -/
def skipComment : List Char → List Char
  | '#' :: rest => rest.dropWhile isTextChar
  | text => text

/-- What follows the rest of a statement's line: blanks, a comment, the line end. -/
def finishLine? (text : List Char) : Option (List Char) :=
  lineEndOrEnd? (skipComment (skipBlanks text))

/-- What follows the blanks, comments and line ends at the start of a text, which may start
inside a comment. -/
def skipLines : Bool → List Char → List Char
  | _, [] => []
  | true, '\n' :: rest => skipLines false rest
  | true, c :: rest =>
      if isTextChar c then skipLines true rest
      else if c = '\r' then
        match rest with
        | '\n' :: more => skipLines false more
        | _ => c :: rest
      else c :: rest
  | false, c :: rest =>
      if isBlank c ∨ c = '\n' then skipLines false rest
      else if c = '#' then skipLines true rest
      else if c = '\r' then
        match rest with
        | '\n' :: more => skipLines false more
        | _ => c :: rest
      else c :: rest

/-- What follows the blanks, comments and line ends at the start of a text. -/
def skipSpace (text : List Char) : List Char := skipLines false text

end TemplateCache.Toml.Read
