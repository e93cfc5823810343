import GcnSim.Converter.Csr
import GcnSim.Core.DataReader
import GcnSim.Lib.Rounding
import GcnSim.Lib.Tokens

/-!
# CSR files as texts

The converters write a CSR file as two lines of decimal numbers with spaces between them.
`GetUint64Val` of the data reader reads one such line back: the first number through a
`float`, the others by `stoull`. With `is_vertex` it counts the rows and the edges of the
blocks on the way.
-/

namespace GcnSim

namespace CsrText

/-- A number as `operator<<` and `str` write it. -/
def decimal (n : Nat) : List Char := Nat.toDigits 10 n

section Writers

/-- The row pointers that `vtmake` and the tiling makers write, with a space after each
but the last. -/
def rowText (vAcm : Nat) : List (List Nat) → List Char
  | [] => []
  | [r] => decimal (vAcm + r.length) ++ ['\n']
  | r :: rows => decimal (vAcm + r.length) ++ ' ' :: rowText (vAcm + r.length) rows

/-- The columns of the last row: the line ends after its last column. -/
def lastRowText : List Nat → List Char
  | [] => []
  | [c] => decimal c ++ ['\n']
  | c :: cs => decimal c ++ ' ' :: lastRowText cs

/-- The columns of the rows. -/
def colText : List (List Nat) → List Char
  | [] => []
  | [r] => lastRowText r
  | r :: rows => r.flatMap (fun c => decimal c ++ [' ']) ++ colText rows

/-- The file `vtmake` and the tiling makers write for the rows `new_csr`. -/
def writeCsr (newCsr : List (List Nat)) : List Char :=
  decimal 0 ++ ' ' :: rowText 0 newCsr ++ colText newCsr

/-- Numbers with a space after each. -/
def terminated (xs : List Nat) : List Char := xs.flatMap fun x => decimal x ++ [' ']

/-- Numbers with a space between them. -/
def separated (xs : List Nat) : List Char :=
  terminated xs.dropLast ++ (xs.getLast?.map decimal).getD []

/-- The file `converter.py` writes. -/
def writePy (row col : List Nat) : List Char := terminated row ++ '\n' :: terminated col

/-- The file of the C++ converters for row pointers and columns. If there are empty rows
after the last column, the line ends with a space instead of a newline. -/
def writeVt (row col : List Nat) (lastRowEmpty : Bool) : List Char :=
  separated row ++ '\n' :: separated col ++ [if lastRowEmpty then ' ' else '\n']

end Writers

section Reader

/-- `getline` on the file: a line and what follows it. -/
def getLine (text : List Char) : List Char × List Char :=
  (text.takeWhile (· ≠ '\n'), (text.dropWhile (· ≠ '\n')).drop 1)

/-- The number a token of digits starts with. A token without one is an exception. -/
def number (temp : List Char) : Option Nat :=
  let digits := temp.takeWhile Char.isDigit
  if digits = [] then none else some (Nat.ofDigitChars 10 digits 0)

/-- `stoull`, an exception from `2 ^ 64` on. -/
def stoull (temp : List Char) : Option Nat := (number temp).bind toU64

/-- `stof` rounds to the nearest `float`. -/
def stof (temp : List Char) : Option Nat := (number temp).map (Rounding.round 24)

/-- The queues `edge_req_count` and `vertex_req_count`. -/
structure Counts where
  edgeReqCount : List Nat
  vertexReqCount : List Nat
  deriving DecidableEq, Repr

/-- `GetUint64Val` with the delimiter `' '`: the queue it returns and the count queues after
it. -/
def getUint64Val (isVertex : Bool) (maxV aH : Nat) (line : List Char) (q : Counts) :
    Option (List Nat × Counts) :=
  match Tokens.split ' ' [] line with
  | [] => none
  | temp :: temps =>
    match (stof temp).bind toU64, temps.mapM stoull with
    | some first, some rest =>
      let pushed := if isVertex then countLoop maxV aH 0 1 0 rest else ([], [])
      some (first :: rest, ⟨q.edgeReqCount ++ pushed.1, q.vertexReqCount ++ pushed.2⟩)
    | _, _ => none

end Reader

end CsrText

end GcnSim
