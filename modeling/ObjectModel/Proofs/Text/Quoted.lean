import Mathlib.Tactic.SplitIfs
import ObjectModel.Store.Text

/-!
# Reading literals back

The quote of a literal is chosen from the whole text, and what is escaped depends on the quote. The
text is read back by induction with the quote as a parameter: a reader that goes on after the escape
of a character gets this character first, whichever of the two quotes was chosen.
-/

namespace ObjectModel
namespace Text
namespace Quoted

/-- The inside of a literal, where a backslash takes the next character with it and the quote stands
in no other place. -/
inductive Body (quote : Char) : List Char → Prop
  | nil : Body quote []
  | plain {c : Char} {rest : List Char} (no_escape : c ≠ '\\') (no_quote : c ≠ quote)
      (remain : Body quote rest) : Body quote (c :: rest)
  | escaped (c : Char) {rest : List Char} (remain : Body quote rest) :
      Body quote ('\\' :: c :: rest)

/-- A well-formed literal that is read as the text. -/
structure Reads (literal text : List Char) : Prop where
  /-- The inside stands between two equal quotes and does not have this quote unescaped. -/
  framed : ∃ quote body, (quote = '\'' ∨ quote = '"') ∧ Body quote body ∧
    literal = quote :: body ++ [quote]
  /-- Every escape exists, and the escapes stand for the text. -/
  decodes : decode literal = some text

/-- The byte with the number of a character. -/
def byte? (c : Char) : Option UInt8 :=
  if c.toNat < 256 then some (UInt8.ofNat c.toNat) else none

/-- Reads the literal of a byte string, which has the mark `b` and a character for each byte. -/
def decodeBytes : List Char → Option (List UInt8)
  | 'b' :: literal => do (← decode literal).mapM byte?
  | _ => none

variable {plain : Char → Bool} {quote c : Char} {text : List Char}

/-! ## Escapes -/

theorem hexValue?_hexDigit {n : Nat} (small : n < 16) : hexValue? (hexDigit n) = some n := by
  revert n
  decide

theorem isBytePlain_hexDigit {n : Nat} (small : n < 16) : isBytePlain (hexDigit n) := by
  revert n
  decide

theorem hexDigit_no_mark {n : Nat} (small : n < 16) :
    hexDigit n ≠ '\\' ∧ hexDigit n ≠ '\'' ∧ hexDigit n ≠ '"' := by
  revert n
  decide

theorem isBytePlain_of_quote (is_quote : quote = '\'' ∨ quote = '"') : isBytePlain quote := by
  rcases is_quote with rfl | rfl <;> rfl

theorem Body.append {first rest : List Char} (begins : Body quote first)
    (remain : Body quote rest) : Body quote (first ++ rest) := by
  induction begins with
  | nil => exact remain
  | plain no_escape no_quote _ induction => exact .plain no_escape no_quote induction
  | escaped c _ induction => exact .escaped c induction

/-- What `escape` writes for each sort of character. -/
inductive Escaped (plain : Char → Bool) (quote : Char) : Char → List Char → Prop
  | itself {c : Char} (is_mark : c = '\\' ∨ c = quote) : Escaped plain quote c ['\\', c]
  | newline : Escaped plain quote '\n' ['\\', 'n']
  | returning : Escaped plain quote '\r' ['\\', 'r']
  | tab : Escaped plain quote '\t' ['\\', 't']
  | plain {c : Char} (is_plain : plain c) (no_escape : c ≠ '\\') (no_quote : c ≠ quote) :
      Escaped plain quote c [c]
  | number {c : Char} (not_plain : plain c = false) : Escaped plain quote c
      ['\\', 'x', hexDigit (c.toNat / 16), hexDigit (c.toNat % 16)]

theorem escaped_escape (plain : Char → Bool) (quote c : Char) :
    Escaped plain quote c (escape plain quote c) := by
  unfold escape
  split_ifs with is_escape is_newline is_return is_tab is_quote is_plain
  · rw [is_escape]
    exact .itself (.inl rfl)
  · rw [is_newline]
    exact .newline
  · rw [is_return]
    exact .returning
  · rw [is_tab]
    exact .tab
  · exact .itself (.inr is_quote)
  · exact .plain is_plain is_escape is_quote
  · exact .number (eq_false_of_ne_true is_plain)

theorem decodeBody_mark (quote : Char) {rest : List Char} (is_mark : c = '\\' ∨ c = quote)
    (no_number : c ≠ 'x') :
    decodeBody quote ('\\' :: c :: rest) = (decodeBody quote rest).map (c :: ·) := by
  rw [decodeBody.eq_3 _ _ _ fun _ _ _ is_number _ => no_number is_number, if_pos is_mark]

theorem decodeBody_plain {rest : List Char} (no_escape : c ≠ '\\') (no_quote : c ≠ quote) :
    decodeBody quote (c :: rest) = (decodeBody quote rest).map (c :: ·) := by
  rw [decodeBody.eq_4 _ _ _ (fun _ _ _ is_escape _ => no_escape is_escape)
    (fun _ _ is_escape _ => no_escape is_escape), if_neg no_quote]

theorem decodeBody_number (quote : Char) {rest : List Char} (fits : c.toNat < 256) :
    decodeBody quote
        ('\\' :: 'x' :: hexDigit (c.toNat / 16) :: hexDigit (c.toNat % 16) :: rest) =
      (decodeBody quote rest).map (c :: ·) := by
  rw [decodeBody, hexValue?_hexDigit (Nat.div_lt_of_lt_mul fits),
    hexValue?_hexDigit (Nat.mod_lt _ (by decide))]
  change (decodeBody quote rest >>= fun _ => _) = _
  rw [Nat.div_add_mod, Char.ofNat_toNat]
  cases decodeBody quote rest <;> rfl

namespace Escaped

variable {written : List Char}

/-- Where the quote is one of the two, what is written for a character is read as the character. -/
theorem decodeBody_append (escaped : Escaped plain quote c written)
    (is_quote : quote = '\'' ∨ quote = '"') (fits : plain c = false → c.toNat < 256)
    (rest : List Char) :
    decodeBody quote (written ++ rest) = (decodeBody quote rest).map (c :: ·) := by
  cases escaped with
  | itself is_mark =>
      refine decodeBody_mark quote is_mark ?_
      rcases is_mark with rfl | rfl
      · decide
      · rcases is_quote with rfl | rfl <;> decide
  | newline => rcases is_quote with rfl | rfl <;> rfl
  | returning => rcases is_quote with rfl | rfl <;> rfl
  | tab => rcases is_quote with rfl | rfl <;> rfl
  | plain _ no_escape no_quote => exact decodeBody_plain no_escape no_quote
  | number not_plain => exact decodeBody_number quote (fits not_plain)

theorem body (escaped : Escaped plain quote c written) (is_quote : quote = '\'' ∨ quote = '"')
    (fits : plain c = false → c.toNat < 256) : Body quote written := by
  cases escaped with
  | plain _ no_escape no_quote => exact .plain no_escape no_quote .nil
  | number not_plain =>
      have digit {n : Nat} (small : n < 16) {rest : List Char} (remain : Body quote rest) :
          Body quote (hexDigit n :: rest) := by
        obtain ⟨no_escape, no_single, no_double⟩ := hexDigit_no_mark small
        refine .plain no_escape ?_ remain
        rcases is_quote with rfl | rfl
        · exact no_single
        · exact no_double
      have small := fits not_plain
      exact .escaped _ (digit (by omega) (digit (by omega) .nil))
  | _ => exact .escaped _ .nil

theorem isBytePlain_of_mem_mark (is_plain : isBytePlain c) {d : Char}
    (member : d ∈ ['\\', c]) : isBytePlain d := by
  simp only [List.mem_cons, List.not_mem_nil, or_false] at member
  rcases member with rfl | rfl
  · decide
  · exact is_plain

/-- What is written for a character consists of printable characters of ASCII, apart from the
character itself if it is plain. -/
theorem isBytePlain_or_plain (escaped : Escaped plain quote c written)
    (is_quote : quote = '\'' ∨ quote = '"') (fits : plain c = false → c.toNat < 256) {d : Char}
    (member : d ∈ written) : isBytePlain d ∨ plain d := by
  cases escaped with
  | itself is_mark =>
      left
      refine isBytePlain_of_mem_mark ?_ member
      rcases is_mark with rfl | rfl
      · decide
      · exact isBytePlain_of_quote is_quote
  | plain is_plain => exact .inr (List.mem_singleton.mp member ▸ is_plain)
  | number not_plain =>
      have small := fits not_plain
      have high := isBytePlain_hexDigit (n := c.toNat / 16) (by omega)
      have low := isBytePlain_hexDigit (n := c.toNat % 16) (by omega)
      left
      simp only [List.mem_cons, List.not_mem_nil, or_false] at member
      rcases member with rfl | rfl | rfl | rfl
      · decide
      · decide
      · exact high
      · exact low
  | _ => exact .inl (isBytePlain_of_mem_mark (by decide) member)

end Escaped

/-! ## Literals -/

theorem quoteFor_cases (text : List Char) : quoteFor text = '\'' ∨ quoteFor text = '"' := by
  unfold quoteFor
  split_ifs
  · exact .inr rfl
  · exact .inl rfl

theorem decode_cons (is_quote : quote = '\'' ∨ quote = '"') (body : List Char) :
    decode (quote :: body) = decodeBody quote body := by
  rcases is_quote with rfl | rfl <;> rfl

theorem decodeBody_flatMap_escape (is_quote : quote = '\'' ∨ quote = '"')
    (fits : ∀ c ∈ text, plain c = false → c.toNat < 256) :
    decodeBody quote (text.flatMap (escape plain quote) ++ [quote]) = some text := by
  induction text with
  | nil => rcases is_quote with rfl | rfl <;> rfl
  | cons c text induction =>
      rw [List.flatMap_cons, List.append_assoc,
        (escaped_escape plain quote c).decodeBody_append is_quote (fits c List.mem_cons_self),
        induction fun d member => fits d (.tail c member)]
      rfl

theorem body_flatMap_escape (is_quote : quote = '\'' ∨ quote = '"')
    (fits : ∀ c ∈ text, plain c = false → c.toNat < 256) :
    Body quote (text.flatMap (escape plain quote)) := by
  induction text with
  | nil => exact .nil
  | cons c text induction =>
      rw [List.flatMap_cons]
      exact ((escaped_escape plain quote c).body is_quote (fits c List.mem_cons_self)).append
        (induction fun d member => fits d (.tail c member))

/-- A literal is read as its text if the characters that do not stand for themselves have numbers
with two hexadecimal digits. -/
theorem reads_encode (fits : ∀ c ∈ text, plain c = false → c.toNat < 256) :
    Reads (encode plain text) text where
  framed := ⟨quoteFor text, _, quoteFor_cases text, body_flatMap_escape (quoteFor_cases text) fits,
    rfl⟩
  decodes := (decode_cons (quoteFor_cases text) _).trans
    (decodeBody_flatMap_escape (quoteFor_cases text) fits)

theorem isBytePlain_or_plain_of_mem_encode (fits : ∀ c ∈ text, plain c = false → c.toNat < 256)
    (member : c ∈ encode plain text) : isBytePlain c ∨ plain c := by
  have quote_plain := isBytePlain_of_quote (quoteFor_cases text)
  simp only [encode, List.cons_append, List.mem_cons, List.mem_append, List.mem_flatMap,
    List.not_mem_nil, or_false] at member
  rcases member with rfl | ⟨d, inside, written⟩ | rfl
  · exact .inl quote_plain
  · exact (escaped_escape plain _ d).isBytePlain_or_plain (quoteFor_cases text) (fits d inside)
      written
  · exact .inl quote_plain

theorem isTextPlain_iff : isTextPlain c ↔ 0x20 ≤ c.toNat ∧ c.toNat ≠ 0x7f := by
  rw [isTextPlain, Bool.and_eq_true, decide_eq_true_eq, bne_iff_ne, ne_eq, ← Char.toNat_inj]
  rfl

theorem isBytePlain_iff : isBytePlain c ↔ 0x20 ≤ c.toNat ∧ c.toNat ≤ 0x7e := by
  rw [isBytePlain, Bool.and_eq_true, decide_eq_true_eq, decide_eq_true_eq]
  rfl

theorem toNat_lt_of_not_isTextPlain (not_plain : isTextPlain c = false) : c.toNat < 256 := by
  refine Nat.lt_of_not_le fun large => ?_
  rw [isTextPlain_iff.mpr (by omega)] at not_plain
  cases not_plain

/-! ## Bytes as characters -/

theorem toNat_ofNat_byte (b : UInt8) : (Char.ofNat b.toNat).toNat = b.toNat := by
  have small := b.toNat_lt
  rw [Char.ofNat, dif_pos (.inl (by omega))]
  rfl

theorem byte?_ofNat (b : UInt8) : byte? (Char.ofNat b.toNat) = some b := by
  rw [byte?, toNat_ofNat_byte, if_pos b.toNat_lt, UInt8.ofNat_toNat]

theorem mapM_byte? (bytes : List UInt8) :
    (bytes.map fun b => Char.ofNat b.toNat).mapM byte? = some bytes := by
  induction bytes with
  | nil => rfl
  | cons b bytes induction =>
      rw [List.map_cons, List.mapM_cons, byte?_ofNat, induction]
      rfl

theorem toNat_lt_of_mem_bytes {bytes : List UInt8}
    (member : c ∈ bytes.map fun b => Char.ofNat b.toNat) : c.toNat < 256 := by
  obtain ⟨b, _, rfl⟩ := List.mem_map.mp member
  rw [toNat_ofNat_byte]
  exact b.toNat_lt

theorem Reads.decodeBytes {literal : List Char} {bytes : List UInt8}
    (reads : Reads literal (bytes.map fun b => Char.ofNat b.toNat)) :
    decodeBytes ('b' :: literal) = some bytes := by
  rw [Quoted.decodeBytes, reads.decodes]
  exact mapM_byte? bytes

end Quoted
end Text

namespace Store

open Text.Quoted

/-- The representations of texts and byte strings are literals that can be read back. -/
structure WritesLiterals (store : Store) : Prop where
  /-- The representation of a text is a literal that is read as the text. -/
  reads_text (text : String) : Reads (store.repr (.str text)).toList text.toList
  /-- It has no control character of ASCII. -/
  text_plain (text : String) : ∀ c ∈ (store.repr (.str text)).toList,
    0x20 ≤ c.toNat ∧ c.toNat ≠ 0x7f
  /-- Different texts have different representations. -/
  text_injective : Function.Injective fun text => store.repr (.str text)
  /-- The representation of a byte string is a marked literal that is read as the bytes. -/
  reads_bytes (bytes : List UInt8) : ∃ literal,
    (store.repr (.bytes bytes)).toList = 'b' :: literal ∧
    Reads literal (bytes.map fun b => Char.ofNat b.toNat) ∧
    decodeBytes ('b' :: literal) = some bytes
  /-- It has only printable characters of ASCII. -/
  bytes_plain (bytes : List UInt8) : ∀ c ∈ (store.repr (.bytes bytes)).toList,
    0x20 ≤ c.toNat ∧ c.toNat ≤ 0x7e
  /-- Different byte strings have different representations. -/
  bytes_injective : Function.Injective fun bytes => store.repr (.bytes bytes)

variable (store : Store)

theorem toList_repr_str (text : String) :
    (store.repr (.str text)).toList = encode isTextPlain text.toList :=
  String.toList_ofList

theorem toList_repr_bytes (bytes : List UInt8) : (store.repr (.bytes bytes)).toList =
    'b' :: encode isBytePlain (bytes.map fun b => Char.ofNat b.toNat) :=
  String.toList_ofList

theorem reads_repr_str (text : String) : Reads (store.repr (.str text)).toList text.toList := by
  rw [toList_repr_str]
  exact reads_encode fun _ _ => toNat_lt_of_not_isTextPlain

theorem reads_repr_bytes (bytes : List UInt8) : ∃ literal,
    (store.repr (.bytes bytes)).toList = 'b' :: literal ∧
    Reads literal (bytes.map fun b => Char.ofNat b.toNat) ∧
    decodeBytes ('b' :: literal) = some bytes :=
  have reads := reads_encode fun _ member _ => toNat_lt_of_mem_bytes member
  ⟨_, store.toList_repr_bytes bytes, reads, reads.decodeBytes⟩

theorem repr_str_injective : Function.Injective fun text => store.repr (.str text) := by
  intro first second same
  have same : store.repr (.str first) = store.repr (.str second) := same
  have read := (store.reads_repr_str first).decodes
  rw [same, (store.reads_repr_str second).decodes] at read
  exact (String.toList_injective (Option.some.inj read)).symm

theorem repr_bytes_injective : Function.Injective fun bytes => store.repr (.bytes bytes) := by
  intro first second same
  have same : store.repr (.bytes first) = store.repr (.bytes second) := same
  obtain ⟨literal, written, _, read⟩ := store.reads_repr_bytes first
  obtain ⟨other, written_other, _, read_other⟩ := store.reads_repr_bytes second
  rw [← written, same, written_other, read_other] at read
  exact (Option.some.inj read).symm

/-- Reading the escapes of a representation gives back the text or the bytes. -/
theorem writesLiterals : store.WritesLiterals where
  reads_text := store.reads_repr_str
  text_plain text c member := by
    rw [toList_repr_str] at member
    rcases isBytePlain_or_plain_of_mem_encode (fun _ _ => toNat_lt_of_not_isTextPlain) member
      with printable | is_plain
    · have bounds := isBytePlain_iff.mp printable
      omega
    · exact isTextPlain_iff.mp is_plain
  text_injective := store.repr_str_injective
  reads_bytes := store.reads_repr_bytes
  bytes_plain bytes c member := by
    rw [toList_repr_bytes] at member
    rcases List.mem_cons.mp member with rfl | inside
    · decide
    · exact isBytePlain_iff.mp (or_self_iff.mp (isBytePlain_or_plain_of_mem_encode
        (fun _ inside _ => toNat_lt_of_mem_bytes inside) inside))
  bytes_injective := store.repr_bytes_injective

end Store
end ObjectModel
