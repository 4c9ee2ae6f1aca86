import Calculator.Expr.Reader
import Calculator.Token.Cursor

/-!
# Working on a shared source

On a workbench lies one source. Characters can be read from it directly and its position can be set;
scanners can be put on it, each of which reads one character ahead; and a reader of expressions can be put
on the newest scanner, which takes one token ahead and keeps its scanner from then on. All of them move
the one position, and what was read before a fault stays read.
-/
namespace Calculator

structure Workbench where
  source : Source
  /-- The character ahead of each scanner, the newest last. -/
  scanners : Array (Option Char)
  /-- The number of the reader's scanner, and the token ahead. -/
  reader : Option (Nat × Token)

namespace Workbench

/-- What can be done on a workbench. -/
inductive Request where
  /-- Reads up to `n` characters from the source. -/
  | read (n : Nat)
  /-- Sets the position of the source. -/
  | seek (position : Nat)
  /-- Puts a new scanner on the source. -/
  | scanner
  /-- Takes a token from the newest scanner. -/
  | token
  /-- Takes the tokens of the newest scanner up to the end of input. -/
  | tokens
  /-- Puts a reader on the newest scanner. -/
  | reader
  /-- Reads an expression, behind which nothing may follow if `strict`. -/
  | expression (strict : Bool)
  deriving DecidableEq, Repr

/-- What comes of it. -/
inductive Answer where
  | done
  | text (text : String)
  | token (token : Token)
  | tokens (tokens : List Token)
  | expression (result : Except Fault Expr)
  /-- There is no scanner or no reader to do it. -/
  | unavailable

/-- A workbench with a text on it, at its beginning. -/
def ofString (text : String) : Workbench := ⟨.ofString text, #[], none⟩

/-- A scanner with the source. -/
def cursor? (w : Workbench) (scanner : Nat) : Option Token.Cursor :=
  w.scanners[scanner]?.map fun ahead => ⟨ahead, w.source⟩

/-- The workbench after a scanner has moved. -/
def withCursor (w : Workbench) (scanner : Nat) (cursor : Token.Cursor) : Workbench :=
  { w with source := cursor.source, scanners := w.scanners.setIfInBounds scanner cursor.ahead }

/-- The number of the newest scanner. -/
def newest (w : Workbench) : Nat := w.scanners.size - 1

/-- Reads an expression from the token ahead and the tokens of the cursor. The cursor goes on by as many
tokens as were taken. -/
def readExpression (strict : Bool) (budget : Budget) (ahead : Token) (cursor : Token.Cursor) :
    Except Fault Expr × Token × Token.Cursor :=
  let trace := cursor.trace
  let tokens := ahead :: trace.map Prod.fst
  let reading := Reader.read strict budget tokens
  let taken := tokens.length - reading.rest.length
  let cursor := ((trace.map Prod.snd).take taken).getLast?.getD cursor
  (reading.result, Reader.lookahead reading.rest, cursor)

/-- Carries out a request. -/
def carryOut (budget : Budget) (w : Workbench) : Request → Answer × Workbench
  | .read n =>
    let (text, source) := w.source.read n
    (.text text, { w with source })
  | .seek position => (.done, { w with source := w.source.seek position })
  | .scanner =>
    let cursor := Token.Cursor.start w.source
    (.done, { w with source := cursor.source, scanners := w.scanners.push cursor.ahead })
  | .token =>
    match w.cursor? w.newest with
    | none => (.unavailable, w)
    | some cursor =>
      let (token, cursor) := cursor.next
      (.token token, w.withCursor w.newest cursor)
  | .tokens =>
    match w.cursor? w.newest with
    | none => (.unavailable, w)
    | some cursor =>
      let trace := cursor.trace
      (.tokens (trace.map Prod.fst),
        w.withCursor w.newest ((trace.map Prod.snd).getLast?.getD cursor))
  | .reader =>
    match w.cursor? w.newest with
    | none => (.unavailable, w)
    | some cursor =>
      let (token, cursor) := cursor.next
      (.done, { w.withCursor w.newest cursor with reader := some (w.newest, token) })
  | .expression strict =>
    match w.reader with
    | none => (.unavailable, w)
    | some (scanner, ahead) =>
      match w.cursor? scanner with
      | none => (.unavailable, w)
      | some cursor =>
        let (result, ahead, cursor) := readExpression strict budget ahead cursor
        (.expression result, { w.withCursor scanner cursor with reader := some (scanner, ahead) })

/-- Carries out requests one after the other, and keeps the workbench as it was after each. -/
def carryOutEach (budget : Budget) (w : Workbench) : List Request → List (Answer × Workbench)
  | [] => []
  | request :: requests =>
    w.carryOut budget request :: carryOutEach budget (w.carryOut budget request).2 requests

end Workbench
end Calculator
