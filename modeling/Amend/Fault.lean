/-
Amend.Fault — failures of the surroundings.

A file error is the refusal of one file operation and has a number, as the
operating system gives it. A fault is anything else that stops the program
without being an answer to a request: malformed bytes where text is needed, a
text that has no bytes, a number too long to convert, a value too deep to be
written out, a log that holds something else than entries.

  §1 Texts and bytes.
  §2 File errors.
  §3 Faults.
-/
import Amend.Number.Decimal
import Amend.Text.Printable
import Amend.Text.Utf8
import Amend.Value.Date
import Amend.Value.Display

namespace Amend

/-! ## §1 Texts and bytes -/

namespace Utf8

/-- What is wrong with a sequence. -/
def Malformed.reason (m : Malformed) : String :=
  match m.defect with
  | .start => "invalid start byte"
  | .continuation => "invalid continuation byte"
  | .truncated => "unexpected end of data"

/-- Where and why bytes are not UTF-8. -/
def Malformed.message (m : Malformed) : Text :=
  let place : Text :=
    match m.bytes with
    | [b] =>
      "byte 0x" ++ ((Text.hex 2 b.toNat).map Symbol.char : Text) ++ " in position " ++ Text.ofNat m.position
    | bs =>
      "bytes in position " ++ Text.ofNat m.position ++ "-" ++
        Text.ofNat (m.position + bs.length - 1)
  "'utf-8' codec can't decode " ++ place ++ ": " ++ Text.ofString m.reason

/-- Where a text has no bytes. -/
def Unencodable.message (u : Unencodable) : Text :=
  let place : Text :=
    if u.count = 1 then
      "character '\\u" ++ ((Text.hex 4 u.code).map Symbol.char : Text) ++ "' in position " ++
        Text.ofNat u.position
    else
      "characters in position " ++ Text.ofNat u.position ++ "-" ++
        Text.ofNat (u.position + u.count - 1)
  "'utf-8' codec can't encode " ++ place ++ ": surrogates not allowed"

end Utf8

/-! ## §2 File errors -/

/-- The refusal of a file operation. -/
inductive FileError where
  /-- The operating system's refusal: its number and words, the path, and for
  a renaming the path it was to get. -/
  | system (number : Int) (words : Text) (path : Text) (target : Option Text)
  /-- A store in memory holds no such file. -/
  | absent (path : Text)
  /-- The path holds the character zero, which is in no path at all. -/
  | zeroInPath
  /-- The path has no bytes. -/
  | unencodable (u : Utf8.Unencodable)
  deriving DecidableEq, Repr

/-- The refusals that callers tell apart. -/
inductive FileErrorKind where
  | notFound
  | permission
  | exists
  | isDirectory
  | notDirectory
  | interrupted
  | wouldBlock
  | timedOut
  | noProcess
  | noChild
  | brokenPipe
  | connectionAborted
  | connectionRefused
  | connectionReset
  | invalidPath
  | other
  deriving DecidableEq, Repr

namespace FileError

/-- The user may not do this. -/
def denied (path : Text) : FileError := system 13 "Permission denied" path none

/-- No such file or directory. -/
def noEntry (path : Text) : FileError := system 2 "No such file or directory" path none

/-- The path is taken. -/
def fileExists (path : Text) : FileError := system 17 "File exists" path none

/-- A directory stands where a file is needed. -/
def directory (path : Text) : FileError := system 21 "Is a directory" path none

/-- A file stands where a directory is needed. -/
def noDirectory (path : Text) : FileError := system 20 "Not a directory" path none

/-- The path, or one of its names, is longer than the system allows. -/
def nameTooLong (path : Text) : FileError := system 36 "File name too long" path none

/-- What kind of refusal it is. -/
def kind : FileError → FileErrorKind
  | absent _ => .notFound
  | zeroInPath | unencodable _ => .invalidPath
  | system n _ _ _ =>
    if n = 2 then .notFound
    else if n = 1 ∨ n = 13 then .permission
    else if n = 17 then .exists
    else if n = 21 then .isDirectory
    else if n = 20 then .notDirectory
    else if n = 4 then .interrupted
    else if n = 11 ∨ n = 114 ∨ n = 115 then .wouldBlock
    else if n = 110 then .timedOut
    else if n = 3 then .noProcess
    else if n = 10 then .noChild
    else if n = 32 ∨ n = 108 then .brokenPipe
    else if n = 103 then .connectionAborted
    else if n = 111 then .connectionRefused
    else if n = 104 then .connectionReset
    else .other

/-- The refusal in words. -/
def message : FileError → Text
  | absent path => path
  | zeroInPath => "embedded null byte"
  | unencodable u => u.message
  | system n words path target =>
    "[Errno " ++ Text.ofInt n ++ "] " ++ words ++ ": " ++ Text.quoted path ++
      match target with
      | none => []
      | some t => " -> " ++ Text.quoted t

/-- Why a path is one that no system has: it has no bytes, or holds the
character zero. -/
def ofPath? (path : Text) : Option FileError :=
  match Utf8.unencodable? path with
  | some u => some (.unencodable u)
  | none => if Symbol.char '\x00' ∈ path then some .zeroInPath else none

end FileError

/-! ## §3 Faults -/

/-- A failure that is no answer to a request. -/
inductive Fault where
  /-- A file operation refused outside a request. -/
  | file (e : FileError)
  /-- A number of this many digits was to be read. -/
  | tooManyDigits (digits : Nat)
  /-- A number of too many digits was to be written. -/
  | tooLongNumber
  /-- Bytes are not UTF-8. -/
  | malformed (m : Utf8.Malformed)
  /-- A text has no bytes. -/
  | unencodable (u : Utf8.Unencodable)
  /-- An infinite number was to be made an integer. -/
  | infinite
  /-- A date does not exist. -/
  | calendar (e : CalendarError)
  /-- A text marked as a number is none. -/
  | noNumber (words : Text)
  /-- A text marked as a number has no digits at all. -/
  | emptyNumber
  /-- A text marked as a truth value is no word for one. -/
  | noWord (word : Text)
  /-- An integer is too great to be made a double. -/
  | tooGreat
  /-- A mapping stands where a text is needed. -/
  | noText
  /-- A file is to be opened and none is named. -/
  | noPath
  /-- Entries are to be counted off and no number is given. -/
  | noCount
  /-- What is to be read holds itself, or too much inside each other; this
  was being done when it was seen. -/
  | tooDeep (doing : Text)
  /-- A number stands for no character. -/
  | noCharacter (code : Nat)
  /-- A value of this kind has no fields. -/
  | noFields (kind : String) (field : String)
  /-- Two kinds of value have no order. -/
  | unordered (left right : String)
  /-- A value of this kind cannot name anything. -/
  | noKey (kind : String)
  /-- A plan is no list of edits. -/
  | badPlan (path : Text)
  deriving DecidableEq, Repr

/-- The families of faults that callers tell apart. -/
inductive FaultKind where
  | file (k : FileErrorKind)
  | value
  | overflow
  | decoding
  | attribute
  | type
  | key
  | index
  | depth
  deriving DecidableEq, Repr

namespace Fault

/-- The family of a fault. -/
def kind : Fault → FaultKind
  | file e => .file e.kind
  | tooManyDigits _ | tooLongNumber | unencodable _ | calendar _ | noNumber _ | badPlan _ => .value
  | noCharacter code => if code < 0x80000000 then .value else .overflow
  | malformed _ => .decoding
  | infinite | tooGreat => .overflow
  | noFields .. => .attribute
  | unordered .. | noKey _ | noText | noPath | noCount => .type
  | noWord _ => .key
  | emptyNumber => .index
  | tooDeep _ => .depth

/-- The fault in words. -/
def message : Fault → Text
  | file e => e.message
  | tooManyDigits n =>
    "Exceeds the limit (" ++ Text.ofNat digitLimit ++
      " digits) for integer string conversion: value has " ++ Text.ofNat n ++
      " digits; use sys.set_int_max_str_digits() to increase the limit"
  | tooLongNumber =>
    "Exceeds the limit (" ++ Text.ofNat digitLimit ++
      " digits) for integer string conversion; use sys.set_int_max_str_digits() to increase the limit"
  | malformed m => m.message
  | unencodable u => u.message
  | infinite => "cannot convert float infinity to integer"
  | calendar e => Text.ofString e.message
  | noNumber words => words
  | emptyNumber => "string index out of range"
  | noWord word => Text.quoted word
  | tooGreat => "int too large to convert to float"
  | noText => "expected string or bytes-like object, got 'list'"
  | noPath => "expected str, bytes or os.PathLike object, not list"
  | noCount => "bad operand type for unary -: 'list'"
  | tooDeep doing => "maximum recursion depth exceeded" ++ doing
  | noCharacter code =>
    if code < 0x80000000 then "chr() arg not in range(0x110000)"
    else "Python int too large to convert to C int"
  | noFields kind field =>
    "'" ++ Text.ofString kind ++ "' object has no attribute '" ++ Text.ofString field ++ "'"
  | unordered left right =>
    "'<' not supported between instances of '" ++ Text.ofString left ++ "' and '" ++
      Text.ofString right ++ "'"
  | noKey kind => "unhashable type: '" ++ Text.ofString kind ++ "'"
  | badPlan path => path ++ ": expected a list of edit mappings"

end Fault

/-- The fault of writing out a value that is not written out. -/
def Value.Unwritable.fault : Unwritable → Fault
  | tooLong => .tooLongNumber
  | tooDeep => .tooDeep " while getting the repr of an object"

end Amend
