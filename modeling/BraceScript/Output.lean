/-!
# Program output

An `Output` collects the bytes that a program prints.  It may have a limit: the bytes that fit are kept, and a write
that does not fit entirely fails.
-/

namespace BraceScript

/-- The bytes printed so far, and how many there may be. -/
structure Output where
  bytes : ByteArray
  limit : Option Nat

namespace Output

/-- Nothing printed, no limit. -/
def empty : Output := ⟨.empty, none⟩

/-- The number of further bytes that are accepted, if `n` are offered. -/
def room (o : Output) (n : Nat) : Nat :=
  match o.limit with
  | none => n
  | some limit => min n (limit - o.bytes.size)

/-- What a refused write is answered with. -/
def fullMessage : String := "sink is full"

/-- Appends `text`, as far as it fits, and says whether it did. -/
def write (o : Output) (text : String) : Bool × Output :=
  let data := text.toUTF8
  let kept := o.room data.size
  (kept == data.size, { o with bytes := o.bytes ++ data.extract 0 kept })

/-- Appends the texts one after another up to the first that does not fit. -/
def writeAll (o : Output) : List String → Bool × Output
  | [] => (true, o)
  | text :: texts =>
    match o.write text with
    | (true, o) => o.writeAll texts
    | (false, o) => (false, o)

/-- The first of the texts that decode, with a replacement character if it is not all of the bytes. -/
def decode (bytes : ByteArray) : List Nat → String
  | [] => ""
  | drop :: drops =>
    match String.fromUTF8? (bytes.extract 0 (bytes.size - drop)) with
    | some text => if drop = 0 then text else text.push '\ufffd'
    | none => decode bytes drops

/-- The output from byte `start` on as text.  A character that the limit has cut off is replaced; at most three bytes
of it are there. -/
def textFrom (o : Output) (start : Nat) : String := decode (o.bytes.extract start o.bytes.size) [0, 1, 2, 3]

end Output

end BraceScript
