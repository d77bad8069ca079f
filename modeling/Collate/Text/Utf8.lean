/-!
UTF-8 as a writer and a reader of octets. The writer puts the characters down
one after the other; the reader takes them back and, on octets that are no
text, says where the first bad sequence begins and how long it is.

The length of a bad sequence follows the well-formed byte table: octets are
consumed as long as they can still begin a character, and at least one always
is. A sequence that is only cut off by the end of the input has no length.
-/

namespace Collate

/-- The content of a file or document, octet by octet. -/
abbrev Octets := List UInt8

namespace Text.Utf8

def encode (cs : List Char) : Octets :=
  cs.flatMap String.utf8EncodeChar

def ofText (text : String) : Octets :=
  encode text.toList

/-- Where octets stop being text: the index of the first octet of the bad
sequence, and the length of that sequence unless the input ends inside it. -/
structure Fault where
  index : Nat
  length? : Option Nat
  deriving DecidableEq, Repr

def Fault.message (fault : Fault) : String :=
  match fault.length? with
  | some n => s!"invalid utf-8 sequence of {n} bytes from index {fault.index}"
  | none => s!"incomplete utf-8 byte sequence from index {fault.index}"

def isTail (b : UInt8) : Bool :=
  0x80 ≤ b && b ≤ 0xBF

/-- Second octets allowed after a leading octet of a three-octet sequence:
neither overlong forms nor the surrogate range. -/
def isSecondOfThree (lead b : UInt8) : Bool :=
  if lead == 0xE0 then 0xA0 ≤ b && b ≤ 0xBF
  else if lead == 0xED then 0x80 ≤ b && b ≤ 0x9F
  else isTail b

/-- Second octets allowed after a leading octet of a four-octet sequence:
neither overlong forms nor code points past the last plane. -/
def isSecondOfFour (lead b : UInt8) : Bool :=
  if lead == 0xF0 then 0x90 ≤ b && b ≤ 0xBF
  else if lead == 0xF4 then 0x80 ≤ b && b ≤ 0x8F
  else isTail b

def tailBits (b : UInt8) : Nat :=
  b.toNat - 0x80

/-- The first character of the octets and what follows it. On a bad sequence
the answer is its length, or nothing when the input ends inside it. -/
def decodeOne (lead : UInt8) (rest : Octets) : Except (Option Nat) (Char × Octets) :=
  if lead < 0x80 then .ok (Char.ofNat lead.toNat, rest)
  else if lead < 0xC2 then .error (some 1)
  else if lead < 0xE0 then
    match rest with
    | [] => .error none
    | b :: rest =>
      if isTail b then
        .ok (Char.ofNat ((lead.toNat - 0xC0) * 64 + tailBits b), rest)
      else .error (some 1)
  else if lead < 0xF0 then
    match rest with
    | [] => .error none
    | b :: rest =>
      if isSecondOfThree lead b then
        match rest with
        | [] => .error none
        | c :: rest =>
          if isTail c then
            .ok (Char.ofNat ((lead.toNat - 0xE0) * 4096 + tailBits b * 64 + tailBits c), rest)
          else .error (some 2)
      else .error (some 1)
  else if lead < 0xF5 then
    match rest with
    | [] => .error none
    | b :: rest =>
      if isSecondOfFour lead b then
        match rest with
        | [] => .error none
        | c :: rest =>
          if isTail c then
            match rest with
            | [] => .error none
            | d :: rest =>
              if isTail d then
                .ok (Char.ofNat ((lead.toNat - 0xF0) * 262144 + tailBits b * 4096 +
                  tailBits c * 64 + tailBits d), rest)
              else .error (some 3)
          else .error (some 2)
      else .error (some 1)
  else .error (some 1)

/-- A character takes at least its leading octet. -/
theorem decodeOne_length {lead : UInt8} {rest rest' : Octets} {c : Char}
    (h : decodeOne lead rest = .ok (c, rest')) : rest'.length ≤ rest.length := by
  unfold decodeOne at h
  repeat' split at h
  all_goals simp_all
  all_goals grind

/-- Reads characters from octets of which the first has the given index. -/
def decodeFrom (index : Nat) : Octets → Except Fault (List Char)
  | [] => .ok []
  | lead :: rest =>
    match h : decodeOne lead rest with
    | .ok (c, rest') =>
      have := decodeOne_length h
      (decodeFrom (index + (rest.length - rest'.length) + 1) rest').map (c :: ·)
    | .error length? => .error ⟨index, length?⟩
  termination_by octets => octets.length
  decreasing_by simp; omega

def decode (octets : Octets) : Except Fault (List Char) :=
  decodeFrom 0 octets

def toText (octets : Octets) : Except Fault String :=
  (decode octets).map String.ofList

/-- The characters of any octets, each bad sequence read as one replacement
character. -/
def decodeLossy : Octets → List Char
  | [] => []
  | lead :: rest =>
    match h : decodeOne lead rest with
    | .ok (c, rest') =>
      have := decodeOne_length h
      c :: decodeLossy rest'
    | .error (some n) => '\uFFFD' :: decodeLossy (rest.drop (n - 1))
    | .error none => ['\uFFFD']
  termination_by octets => octets.length
  decreasing_by all_goals (simp only [List.length_cons, List.length_drop]; omega)

end Text.Utf8

end Collate
