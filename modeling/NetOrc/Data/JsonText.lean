import NetOrc.Data.TextFormat

/-!
This module contains a reader for the JSON grammar of RFC 8259 on texts in UTF-8. Members of an object are
kept in their order, with repeated names.
-/

namespace JsonText

open TextFormat

def plusSign : UInt8 := 0x2B
def period : UInt8 := 0x2E
def slash : UInt8 := 0x2F
def openBracket : UInt8 := 0x5B
def closeBracket : UInt8 := 0x5D

inductive Value where
  | null
  | bool (b : Bool)
  | number (token : List UInt8)
  | string (s : List UInt8)
  | array (elements : List Value)
  | object (members : List (List UInt8 × Value))

def isWs (b : UInt8) : Bool := b = space || b = tab || b = lineFeed || b = carriageReturn

def skipWs (bytes : List UInt8) : List UInt8 := bytes.dropWhile isWs

/-! Strings. -/

/--
A byte of a string, or a code unit that was written with four hexadecimal digits.
-/
inductive Piece where
  | byte (b : UInt8)
  | unit (u : Nat)
  deriving DecidableEq, Repr

def hexDigit (b : UInt8) : Option Nat :=
  if isDigit b then some (b.toNat - 0x30)
  else if 0x41 ≤ b ∧ b ≤ 0x46 then some (b.toNat - 0x37)
  else if 0x61 ≤ b ∧ b ≤ 0x66 then some (b.toNat - 0x57)
  else none

def hexUnit (h1 h2 h3 h4 : UInt8) : Option Nat := do
  let d1 ← hexDigit h1
  let d2 ← hexDigit h2
  let d3 ← hexDigit h3
  let d4 ← hexDigit h4
  return ((d1 * 16 + d2) * 16 + d3) * 16 + d4

def unescapeByte (b : UInt8) : Option UInt8 :=
  if b = quote ∨ b = backslash ∨ b = slash then some b
  else if b = 0x62 then some 0x08
  else if b = 0x66 then some 0x0C
  else if b = 0x6E then some lineFeed
  else if b = 0x72 then some carriageReturn
  else if b = 0x74 then some tab
  else none

def readPieces (bytes : List UInt8) : Option (List Piece × List UInt8) :=
  match bytes with
  | [] => none
  | b :: rest =>
    if b = quote then
      some ([], rest)
    else if b = backslash then
      match rest with
      | [] => none
      | c :: rest =>
        if c = 0x75 then
          match rest with
          | h1 :: h2 :: h3 :: h4 :: rest =>
            match hexUnit h1 h2 h3 h4 with
            | some u => (readPieces rest).map (fun (pieces, rest) => (.unit u :: pieces, rest))
            | none => none
          | _ => none
        else
          match unescapeByte c with
          | some d => (readPieces rest).map (fun (pieces, rest) => (.byte d :: pieces, rest))
          | none => none
    else if b < 0x20 then
      none
    else
      (readPieces rest).map (fun (pieces, rest) => (.byte b :: pieces, rest))

def utf8Encode (c : Nat) : List UInt8 :=
  if c < 0x80 then [.ofNat c]
  else if c < 0x800 then [.ofNat (0xC0 + c / 0x40), .ofNat (0x80 + c % 0x40)]
  else if c < 0x10000 then
    [.ofNat (0xE0 + c / 0x1000), .ofNat (0x80 + c / 0x40 % 0x40), .ofNat (0x80 + c % 0x40)]
  else
    [.ofNat (0xF0 + c / 0x40000), .ofNat (0x80 + c / 0x1000 % 0x40), .ofNat (0x80 + c / 0x40 % 0x40),
      .ofNat (0x80 + c % 0x40)]

/--
Two code units that are a surrogate pair are one character. A surrogate on its own, which the grammar
allows, is encoded like other code units.
-/
def decodePieces (pieces : List Piece) : List UInt8 :=
  match pieces with
  | [] => []
  | .byte b :: rest => b :: decodePieces rest
  | .unit u :: .unit v :: rest =>
    if 0xD800 ≤ u ∧ u < 0xDC00 ∧ 0xDC00 ≤ v ∧ v < 0xE000 then
      utf8Encode (0x10000 + (u - 0xD800) * 0x400 + (v - 0xDC00)) ++ decodePieces rest
    else
      utf8Encode u ++ decodePieces (.unit v :: rest)
  | .unit u :: rest => utf8Encode u ++ decodePieces rest

def readString (bytes : List UInt8) : Option (List UInt8 × List UInt8) :=
  (readPieces bytes).map (fun (pieces, rest) => (decodePieces pieces, rest))

/-! Numbers and literals. -/

def digitsOf (bytes : List UInt8) : List UInt8 := bytes.takeWhile isDigit

def integerPart (bytes : List UInt8) : Option (List UInt8) :=
  let sign := if bytes.head? = some minus then [minus] else []
  let digits := digitsOf (bytes.drop sign.length)
  if digits = [] then none
  else if digits.head? = some 0x30 then some (sign ++ [0x30])
  else some (sign ++ digits)

def fractionPart (bytes : List UInt8) : Option (List UInt8) :=
  if bytes.head? = some period then
    let digits := digitsOf (bytes.drop 1)
    if digits = [] then none else some (period :: digits)
  else
    some []

def exponentPart (bytes : List UInt8) : Option (List UInt8) :=
  match bytes with
  | [] => some []
  | e :: rest =>
    if e = 0x45 ∨ e = 0x65 then
      let sign := if rest.head? = some minus then [minus]
        else if rest.head? = some plusSign then [plusSign] else []
      let digits := digitsOf (rest.drop sign.length)
      if digits = [] then none else some (e :: sign ++ digits)
    else
      some []

def readNumber (bytes : List UInt8) : Option (Value × List UInt8) := do
  let int ← integerPart bytes
  let frac ← fractionPart (bytes.drop int.length)
  let exp ← exponentPart (bytes.drop (int.length + frac.length))
  let token := int ++ frac ++ exp
  return (.number token, bytes.drop token.length)

def literals : List (List UInt8 × Value) :=
  [(text "null", .null), (text "true", .bool true), (text "false", .bool false)]

def readScalar (bytes : List UInt8) : Option (Value × List UInt8) :=
  match literals.find? (fun literal => literal.1.isPrefixOf bytes) with
  | some literal => some (literal.2, bytes.drop literal.1.length)
  | none => readNumber bytes

/-! Values. -/

mutual

/--
Each step of the recursion reads at least one byte, so that the length of the text is enough fuel.
-/
def readValue (fuel : Nat) (bytes : List UInt8) : Option (Value × List UInt8) :=
  match fuel with
  | 0 => none
  | fuel + 1 =>
    match bytes with
    | [] => none
    | b :: rest =>
      if b = quote then
        (readString rest).map (fun (s, rest) => (.string s, rest))
      else if b = openBrace then
        match skipWs rest with
        | [] => none
        | c :: rest =>
          if c = closeBrace then some (.object [], rest)
          else (readMembers fuel (c :: rest)).map (fun (members, rest) => (.object members, rest))
      else if b = openBracket then
        match skipWs rest with
        | [] => none
        | c :: rest =>
          if c = closeBracket then some (.array [], rest)
          else (readElements fuel (c :: rest)).map (fun (elements, rest) => (.array elements, rest))
      else
        readScalar (b :: rest)

def readMembers (fuel : Nat) (bytes : List UInt8) :
    Option (List (List UInt8 × Value) × List UInt8) :=
  match fuel with
  | 0 => none
  | fuel + 1 =>
    match bytes with
    | [] => none
    | b :: rest =>
      if b = quote then
        (readString rest).bind (fun (name, rest) =>
          match skipWs rest with
          | [] => none
          | c :: rest =>
            if c = colon then
              (readValue fuel (skipWs rest)).bind (fun (value, rest) =>
                match skipWs rest with
                | [] => none
                | c :: rest =>
                  if c = closeBrace then some ([(name, value)], rest)
                  else if c = comma then
                    (readMembers fuel (skipWs rest)).map
                      (fun (members, rest) => ((name, value) :: members, rest))
                  else none)
            else none)
      else none

def readElements (fuel : Nat) (bytes : List UInt8) : Option (List Value × List UInt8) :=
  match fuel with
  | 0 => none
  | fuel + 1 =>
    (readValue fuel bytes).bind (fun (value, rest) =>
      match skipWs rest with
      | [] => none
      | c :: rest =>
        if c = closeBracket then some ([value], rest)
        else if c = comma then
          (readElements fuel (skipWs rest)).map (fun (elements, rest) => (value :: elements, rest))
        else none)

end

def decode (bytes : List UInt8) : Option Value :=
  if validUtf8 bytes then
    (readValue (bytes.length + 1) (skipWs bytes)).bind (fun (value, rest) =>
      if skipWs rest = [] then some value else none)
  else
    none

theorem skipWs_cons_of_not {b : UInt8} (h : ¬isWs b) (rest : List UInt8) :
    skipWs (b :: rest) = b :: rest :=
  List.dropWhile_cons_of_neg h

/-! What the pieces of a string are. -/

def isUnescaped (b : UInt8) : Bool := b ≠ quote && b ≠ backslash && 0x20 ≤ b

theorem readPieces_quote (rest : List UInt8) : readPieces (quote :: rest) = some ([], rest) := by
  rw [readPieces.eq_def]
  dsimp only
  rw [if_pos rfl]

theorem readPieces_unescaped {b : UInt8} (h : isUnescaped b) (rest : List UInt8) :
    readPieces (b :: rest)
      =
    (readPieces rest).map (fun (pieces, rest) => (.byte b :: pieces, rest)) := by
  simp only [isUnescaped, Bool.and_eq_true, decide_eq_true_eq] at h
  rw [readPieces.eq_def]
  dsimp only
  rw [if_neg h.1.1, if_neg h.1.2, if_neg (UInt8.not_lt.mpr h.2)]

theorem readPieces_escape {c d : UInt8} (h : unescapeByte c = some d) (rest : List UInt8) :
    readPieces (backslash :: c :: rest)
      =
    (readPieces rest).map (fun (pieces, rest) => (.byte d :: pieces, rest)) := by
  have hc : c ≠ 0x75 := by
    rintro rfl
    contradiction
  rw [readPieces.eq_def]
  dsimp only
  rw [if_neg (by decide), if_pos rfl, if_neg hc, h]

theorem readPieces_control {b : UInt8} (h : b < 0x20) (rest : List UInt8) :
    readPieces (b :: rest) = none := by
  have hquote : b ≠ quote := by
    rintro rfl
    contradiction
  have hbackslash : b ≠ backslash := by
    rintro rfl
    contradiction
  rw [readPieces.eq_def]
  dsimp only
  rw [if_neg hquote, if_neg hbackslash, if_pos h]

theorem decodePieces_bytes (s : List UInt8) : decodePieces (s.map .byte) = s := by
  induction s with
  | nil => rfl
  | cons b s ih => rw [List.map_cons, decodePieces, ih]

/-! Objects whose values are strings. -/

/--
A way to write strings between quotes. `holds` tells which ones can be read back; no other one is read at
all.
-/
structure StringWriter where
  write : List UInt8 → List UInt8
  holds : List UInt8 → Bool
  readString_write (s rest : List UInt8) :
    readString (write s ++ quote :: rest) = if holds s then some (s, rest) else none
  validUtf8_write {s : List UInt8} : validUtf8 s → validUtf8 (write s)

abbrev Member := List UInt8 × List UInt8

namespace StringWriter

variable (w : StringWriter)

def writeMember (m : Member) : List UInt8 :=
  quote :: (w.write m.1 ++ quote :: colon :: quote :: (w.write m.2 ++ [quote]))

def writeObject (first : Member) (more : List Member) : List UInt8 :=
  openBrace :: (w.writeMember first
    ++ (more.flatMap (fun m => comma :: w.writeMember m) ++ [closeBrace]))

def holdsMember (m : Member) : Bool := w.holds m.1 && w.holds m.2

theorem readValue_string (fuel : Nat) (s rest : List UInt8) :
    readValue (fuel + 1) (quote :: (w.write s ++ quote :: rest))
      =
    if w.holds s then some (.string s, rest) else none := by
  rw [readValue]
  dsimp only
  rw [if_pos rfl, w.readString_write]
  split
  . rfl
  . rfl

theorem readMembers_member (fuel : Nat) (m : Member) (b : UInt8) (rest : List UInt8) (hb : ¬isWs b) :
    readMembers (fuel + 2) (w.writeMember m ++ b :: rest)
      =
    if w.holdsMember m then
      if b = closeBrace then some ([(m.1, .string m.2)], rest)
      else if b = comma then
        (readMembers (fuel + 1) (skipWs rest)).map
          (fun (members, rest) => ((m.1, .string m.2) :: members, rest))
      else none
    else none := by
  have htext : w.writeMember m ++ b :: rest
      = quote :: (w.write m.1 ++ quote :: colon :: quote :: (w.write m.2 ++ quote :: b :: rest)) := by
    simp [writeMember]
  rw [htext, readMembers]
  dsimp only
  rw [if_pos rfl, w.readString_write]
  by_cases hname : w.holds m.1
  . rw [if_pos hname, Option.bind_some]
    dsimp only
    rw [skipWs_cons_of_not (by decide)]
    dsimp only
    rw [if_pos rfl, skipWs_cons_of_not (by decide), w.readValue_string]
    by_cases hvalue : w.holds m.2
    . rw [if_pos hvalue, Option.bind_some]
      dsimp only
      rw [skipWs_cons_of_not hb, if_pos (by simp [holdsMember, hname, hvalue])]
    . rw [if_neg hvalue, if_neg (by simp [holdsMember, hvalue])]
      rfl
  . rw [if_neg hname, if_neg (by simp [holdsMember, hname])]
    rfl

def valuesOf (members : List Member) : List (List UInt8 × Value) :=
  members.map (fun m => (m.1, .string m.2))

theorem readMembers_members (fuel : Nat) (first : Member) (more : List Member) (rest : List UInt8)
    (hfuel : more.length + 2 ≤ fuel) :
    readMembers fuel
        (w.writeMember first ++ (more.flatMap (fun m => comma :: w.writeMember m) ++ closeBrace :: rest))
      =
    if (first :: more).all w.holdsMember then some (valuesOf (first :: more), rest) else none := by
  induction more generalizing fuel first with
  | nil =>
    obtain ⟨fuel, rfl⟩ : ∃ k, fuel = k + 2 := ⟨fuel - 2, by simp at hfuel; omega⟩
    rw [List.flatMap_nil, List.nil_append, w.readMembers_member fuel first closeBrace rest (by decide),
      if_pos rfl]
    simp [valuesOf]
  | cons second more ih =>
    obtain ⟨fuel, rfl⟩ : ∃ k, fuel = k + 2 := ⟨fuel - 2, by omega⟩
    have hskip : skipWs (w.writeMember second
          ++ (more.flatMap (fun m => comma :: w.writeMember m) ++ closeBrace :: rest))
        = w.writeMember second
          ++ (more.flatMap (fun m => comma :: w.writeMember m) ++ closeBrace :: rest) :=
      skipWs_cons_of_not (by decide) _
    rw [List.flatMap_cons, List.cons_append, List.cons_append,
      w.readMembers_member fuel first comma _ (by decide), List.append_assoc, hskip,
      ih (fuel + 1) second (by simp at hfuel; omega), List.all_cons (a := first)]
    by_cases hfirst : w.holdsMember first
    . rw [if_pos hfirst, if_neg (by decide), if_pos rfl, hfirst, Bool.true_and]
      split
      . rfl
      . rfl
    . rw [if_neg hfirst, if_neg (by simp [hfirst])]

theorem readValue_writeObject (fuel : Nat) (first : Member) (more : List Member)
    (hfuel : more.length + 2 ≤ fuel) :
    readValue (fuel + 1) (w.writeObject first more)
      =
    if (first :: more).all w.holdsMember then some (.object (valuesOf (first :: more)), [])
    else none := by
  have hmembers := w.readMembers_members fuel first more [] hfuel
  rw [writeObject, writeMember, List.cons_append, readValue.eq_def]
  rw [writeMember, List.cons_append] at hmembers
  dsimp only
  rw [if_neg (by decide), if_pos rfl, skipWs_cons_of_not (by decide)]
  dsimp only
  rw [if_neg (by decide), hmembers]
  split
  . rfl
  . rfl

theorem length_le_writeObject (first : Member) (more : List Member) :
    more.length + 2 ≤ (w.writeObject first more).length := by
  have hmore : more.length ≤ (more.flatMap (fun m => comma :: w.writeMember m)).length := by
    induction more with
    | nil => rfl
    | cons m more ih =>
      rw [List.flatMap_cons, List.length_append, List.length_cons, List.length_cons]
      omega
  simp only [writeObject, List.length_cons, List.length_append]
  omega

theorem validUtf8_writeMember {m : Member} (hname : validUtf8 m.1) (hvalue : validUtf8 m.2) :
    validUtf8 (w.writeMember m) := by
  have hend : validUtf8 (w.write m.2 ++ [quote]) :=
    validUtf8_append (w.validUtf8_write hvalue) (by decide)
  have hbetween : validUtf8 (quote :: colon :: quote :: (w.write m.2 ++ [quote])) :=
    validUtf8_cons (by decide) (validUtf8_cons (by decide) (validUtf8_cons (by decide) hend))
  exact validUtf8_cons (by decide) (validUtf8_append (w.validUtf8_write hname) hbetween)

theorem validUtf8_writeObject {first : Member} {more : List Member}
    (h : ∀ m ∈ first :: more, validUtf8 m.1 ∧ validUtf8 m.2) :
    validUtf8 (w.writeObject first more) := by
  have hmember : ∀ m ∈ first :: more, validUtf8 (w.writeMember m) :=
    fun m hm => w.validUtf8_writeMember (h m hm).1 (h m hm).2
  have hmore : validUtf8 (more.flatMap (fun m => comma :: w.writeMember m) ++ [closeBrace]) := by
    clear h
    induction more with
    | nil => exact validUtf8_cons (by decide) rfl
    | cons m more ih =>
      rw [List.flatMap_cons, List.cons_append, List.cons_append, List.append_assoc]
      apply validUtf8_cons (by decide)
      apply validUtf8_append (hmember m (by simp))
      apply ih
      intro m' hm'
      rcases List.mem_cons.mp hm' with rfl | hm'
      . exact hmember _ (by simp)
      . exact hmember m' (by simp [hm'])
  exact validUtf8_cons (by decide) (validUtf8_append (hmember first (by simp)) hmore)

theorem decode_writeObject {first : Member} {more : List Member}
    (hutf8 : ∀ m ∈ first :: more, validUtf8 m.1 ∧ validUtf8 m.2) :
    decode (w.writeObject first more)
      =
    if (first :: more).all w.holdsMember then some (.object (valuesOf (first :: more))) else none := by
  have hskip : skipWs (w.writeObject first more) = w.writeObject first more :=
    skipWs_cons_of_not (by decide) _
  rw [decode, if_pos (w.validUtf8_writeObject hutf8), hskip,
    w.readValue_writeObject _ first more (w.length_le_writeObject first more)]
  split
  . rfl
  . rfl

theorem notMem_writeObject {b : UInt8} (hb : b ∉ [openBrace, quote, colon, comma, closeBrace])
    (hwrite : ∀ s, b ∉ w.write s) (first : Member) (more : List Member) :
    b ∉ w.writeObject first more := by
  simp only [List.mem_cons, List.not_mem_nil, not_or] at hb
  have hmember (m : Member) : b ∉ w.writeMember m := by simp [writeMember, hb, hwrite]
  simp [writeObject, hb, hmember]

end StringWriter

end JsonText
