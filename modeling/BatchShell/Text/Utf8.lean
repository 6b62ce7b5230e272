/-!
# Reading bytes as text

Bytes that are not UTF-8 are read all the same: each longest beginning of a character that is not
completed becomes one replacement character.

* `decode` reads bytes, `encode` writes text.
* `decode_encode`: text survives being written and read.
* `toBytes` and `ofBytes` do the same with lists of bytes, which is what passes through pipes.
* `cutBytes?` cuts characters at a number of bytes.
-/
namespace BatchShell.Text

/-- What stands for bytes that are no character. -/
def replacement : Char := Char.ofNat 0xFFFD

def isContinuation (b : UInt8) : Bool := 0x80 ≤ b && b ≤ 0xBF

/-- May `c` follow the first byte `b` of a character of three or four bytes? -/
def isSecond (b c : UInt8) : Bool :=
  if b == 0xE0 then 0xA0 ≤ c && c ≤ 0xBF
  else if b == 0xED then 0x80 ≤ c && c ≤ 0x9F
  else if b == 0xF0 then 0x90 ≤ c && c ≤ 0xBF
  else if b == 0xF4 then 0x80 ≤ c && c ≤ 0x8F
  else isContinuation c

def payload (b : UInt8) : Nat := b.toNat % 64

/-- Read bytes from left to right, with a replacement for every broken character. -/
def decodeBytes : List UInt8 → List Char
  | [] => []
  | b :: rest =>
    if b < 0x80 then Char.ofNat b.toNat :: decodeBytes rest
    else if 0xC2 ≤ b && b ≤ 0xDF then
      match rest with
      | c :: r =>
        if isContinuation c then Char.ofNat (b.toNat % 32 * 64 + payload c) :: decodeBytes r
        else replacement :: decodeBytes (c :: r)
      | [] => [replacement]
    else if 0xE0 ≤ b && b ≤ 0xEF then
      match rest with
      | c :: r =>
        if isSecond b c then
          match r with
          | d :: s =>
            if isContinuation d then
              Char.ofNat ((b.toNat % 16 * 64 + payload c) * 64 + payload d) :: decodeBytes s
            else replacement :: decodeBytes (d :: s)
          | [] => [replacement]
        else replacement :: decodeBytes (c :: r)
      | [] => [replacement]
    else if 0xF0 ≤ b && b ≤ 0xF4 then
      match rest with
      | c :: r =>
        if isSecond b c then
          match r with
          | d :: s =>
            if isContinuation d then
              match s with
              | e :: t =>
                if isContinuation e then
                  Char.ofNat (((b.toNat % 8 * 64 + payload c) * 64 + payload d) * 64 + payload e)
                    :: decodeBytes t
                else replacement :: decodeBytes (e :: t)
              | [] => [replacement]
            else replacement :: decodeBytes (d :: s)
          | [] => [replacement]
        else replacement :: decodeBytes (c :: r)
      | [] => [replacement]
    else replacement :: decodeBytes rest

def encode (s : String) : ByteArray := s.toUTF8

/-- The text of bytes: exact when they are UTF-8, with replacements otherwise. -/
def decode (bytes : ByteArray) : String :=
  match String.fromUTF8? bytes with
  | some s => s
  | none => String.ofList (decodeBytes bytes.toList)

theorem decode_encode (s : String) : decode (encode s) = s := by
  simp [decode, encode, String.fromUTF8?, s.isValidUTF8, String.fromUTF8]

def toBytes (s : String) : List UInt8 := (encode s).data.toList

def ofBytes (bytes : List UInt8) : String := decode ⟨bytes.toArray⟩

@[simp] theorem ofBytes_toBytes (s : String) : ofBytes (toBytes s) = s := by
  rw [ofBytes, toBytes, Array.toArray_toList]
  exact decode_encode s

/-- Cut characters where their first `n` bytes end. Inside a character and behind the last one they cannot be cut. -/
def cutBytes? (n : Nat) : List Char → Option (List Char × List Char)
  | [] => if n = 0 then some ([], []) else none
  | c :: cs =>
    if n = 0 then some ([], c :: cs)
    else if n < c.utf8Size then none
    else (cutBytes? (n - c.utf8Size) cs).map fun (start, rest) => (c :: start, rest)

end BatchShell.Text
