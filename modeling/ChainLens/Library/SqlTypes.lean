/-!
# The typing of statements

A server prepares a statement before it runs it. Preparing it compares the type of every expression
with that of the column it is assigned to, whatever the values are, and refuses the statement at the
first column whose type does not accept the expression's without a cast written out. A driver
declares one type for each type of its host language, and reads a column back only as a type that
is compatible with the column's.

## Main definitions

* `SqlType`, `HostType`: the types of columns, and of the values of the host language
* `SqlType.accepts`: assignment without a cast
* `Assignment`, `refusedAt`: a value for a column, and the column a statement is refused at
* `Column`, `unreadableAt`: a column that is read, and the column a row is not read at
* `hexFormat`, `like`: the literals of byte strings, and their patterns

## Main results

* `refusedAt_eq_none_iff`: nothing is refused if every column fits
-/

namespace Sql

/-- The types of columns. A `numeric` has any precision, and a `varchar` any length. -/
inductive SqlType where
  | boolean
  | smallint
  | integer
  | bigint
  | numeric
  | double
  | text
  | varchar
  | bytea
  | jsonb
  | date
  | timestamptz
  | array (element : SqlType)
deriving DecidableEq

namespace SqlType

def isNumber : SqlType → Bool
  | .smallint | .integer | .bigint | .numeric | .double => true
  | _ => false

def isText : SqlType → Bool
  | .text | .varchar => true
  | _ => false

def isTime : SqlType → Bool
  | .date | .timestamptz => true
  | _ => false

/-- Whether a column takes an expression of a type without a cast: its own type, any text column
everything, and numbers and times one another. No other column takes a text. -/
def accepts : SqlType → SqlType → Bool
  | .array column, .array given => column.accepts given
  | column, given => column = given || column.isText || (column.isNumber && given.isNumber) ||
      (column.isTime && given.isTime)

/-- A column takes its own type. -/
@[simp] theorem accepts_self (column : SqlType) : column.accepts column = true := by
  induction column with
  | array element ih => rwa [accepts]
  | _ => rfl

end SqlType

/-- The types of the host language's values. -/
inductive HostType where
  | bool
  | i16
  | i32
  | i64
  | f64
  | string
  | bytes
  | json
  | option (inner : HostType)
  | vec (element : HostType)
deriving DecidableEq

namespace HostType

/-- The type the driver declares for a parameter. -/
def declared : HostType → SqlType
  | .bool => .boolean
  | .i16 => .smallint
  | .i32 => .integer
  | .i64 => .bigint
  | .f64 => .double
  | .string => .text
  | .bytes => .bytea
  | .json => .jsonb
  | .option inner => inner.declared
  | .vec element => .array element.declared

/-- Whether a column of a type is read as a value: strings read both text types, and every other
value its declared type alone. -/
def reads : HostType → SqlType → Bool
  | .string, column => column.isText
  | .option inner, column => inner.reads column
  | .vec element, .array column => element.reads column
  | .vec _, _ => false
  | value, column => column = value.declared

end HostType

/-! ## Statements -/

/-- A parameter for a column. -/
structure Assignment where
  column : String
  type : SqlType
  value : HostType
deriving DecidableEq

def Assignment.fits (a : Assignment) : Bool := a.type.accepts a.value.declared

/-- The first column that does not accept its parameter. -/
def refusedAt (assignments : List Assignment) : Option String :=
  (assignments.find? (!·.fits)).map (·.column)

theorem refusedAt_eq_none_iff {assignments : List Assignment} :
    refusedAt assignments = none ↔ ∀ a ∈ assignments, a.fits = true := by
  simp [refusedAt]

/-- A column of a row, and the value it is read as. -/
structure Column where
  name : String
  type : SqlType
  value : HostType
deriving DecidableEq

def Column.readable (c : Column) : Bool := c.value.reads c.type

/-- The first column that is not read as its value. -/
def unreadableAt (columns : List Column) : Option String :=
  (columns.find? (!·.readable)).map (·.name)

/-! ## Byte strings -/

def hexDigit (c : Char) : Option UInt8 :=
  if c.isDigit then some (c.toNat - 48).toUInt8
  else if 'a' ≤ c ∧ c ≤ 'f' then some (c.toNat - 87).toUInt8
  else if 'A' ≤ c ∧ c ≤ 'F' then some (c.toNat - 55).toUInt8
  else none

/-- The bytes of a literal in the hex format, after its prefix. Blanks may stand between them, and
anything else is refused. -/
def hexFormat : List Char → Option (List UInt8)
  | [] => some []
  | c :: rest =>
    if c.isWhitespace then hexFormat rest
    else
      match rest with
      | [] => none
      | d :: rest => do
        let high ← hexDigit c
        let low ← hexDigit d
        let bytes ← hexFormat rest
        return (16 * high + low) :: bytes

/-- A literal is refused at its first character that is neither a digit nor a blank. -/
theorem hexFormat_eq_none {c : Char} (hdigit : hexDigit c = none) (hblank : c.isWhitespace = false)
    (rest : List Char) : hexFormat (c :: rest) = none := by
  cases rest <;> simp [hexFormat, hdigit, hblank]

/-- `LIKE` on byte strings: a percent sign is for any bytes, an underscore for one, and a backslash
takes the byte after it as it is. -/
def like : List UInt8 → List UInt8 → Bool
  | [], input => input.isEmpty
  | [p], input => if p = 0x25 then true else
    match input with
    | [b] => p = 0x5f || p = b
    | _ => false
  | p :: q :: pattern, input =>
    if p = 0x25 then (List.range (input.length + 1)).any fun n => like (q :: pattern) (input.drop n)
    else if p = 0x5c then
      match input with
      | b :: input => q = b && like pattern input
      | [] => false
    else
      match input with
      | b :: input => (p = 0x5f || p = b) && like (q :: pattern) input
      | [] => false

end Sql
