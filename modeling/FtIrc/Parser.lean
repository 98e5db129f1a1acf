import FtIrc.Lib.Bytes

/-!
# The message parser

`Parser::parse` cuts a line at its first `" :"`, reads the words in front of it and takes
what follows as the last parameter. A word that starts with a colon in front of the
command is the sender's own prefix.
-/

namespace FtIrc

open Bytes

/-- A parsed line. `origin` is the `prefix` the sender put in front of the command. -/
structure Message where
  origin : Str := []
  command : Str := []
  params : List Str := []
deriving DecidableEq, Repr

/-- Drop one carriage return at the end. -/
def dropFinalCr (s : Str) : Str := if s.getLast? = some cr then s.dropLast else s

namespace Parser

/-- `Parser::parse`. -/
def parse (rawLine : Str) : Message :=
  let line := dropFinalCr rawLine
  if line = [] then {}
  else
    let (basePart, trailing) :=
      match cut (lit " :") line with
      | some (base, rest) => (base, [rest])
      | none => (line, [])
    match words basePart with
    -- without a word the trailing part is not stored either
    | [] => {}
    | word :: rest =>
      if word.head? = some colon then
        { origin := word.tail, command := (rest.headD []).map toUpper,
          params := rest.tail ++ trailing }
      else
        { command := word.map toUpper, params := rest ++ trailing }

end Parser

end FtIrc
