import Mathlib.Data.List.Sort
import Mathlib.Data.List.Nodup
import Mathlib.Order.Basic
import Mathlib.Data.String.Basic

/-!
# Canonical JSON text of a string map

The compact JSON object of a map from strings to strings, with sorted keys and every
character outside printable ASCII escaped, two escapes for a character outside the basic
plane. The escape of a character can be read back with whatever follows it
(`unescape_escapeChar`), so the text determines the entries (`objectText_injective`), and the
text of a map with distinct keys determines the map whatever the order its entries came in
(`canonicalText_perm`).
-/

set_option autoImplicit false

namespace PowerMarket.Library.JsonText

/-! ## Hexadecimal escapes -/

/-- The lower-case hexadecimal digit of a number below 16. -/
def hexDigit (n : Nat) : Char :=
  if n < 10 then Char.ofNat (48 + n) else Char.ofNat (87 + n)

/-- The number a lower-case hexadecimal digit stands for. -/
def hexValue (c : Char) : Nat :=
  if c.toNat < 58 then c.toNat - 48 else c.toNat - 87

theorem hexValue_hexDigit : ∀ n < 16, hexValue (hexDigit n) = n := by decide

/-- Four hexadecimal digits, the most significant first. -/
def hexFour (n : Nat) : List Char :=
  [hexDigit (n / 4096), hexDigit (n / 256 % 16), hexDigit (n / 16 % 16), hexDigit (n % 16)]

/-- The number that four hexadecimal digits stand for. -/
def readFour (a b c d : Char) : Nat :=
  hexValue a * 4096 + hexValue b * 256 + hexValue c * 16 + hexValue d

theorem readFour_hexFour {n : Nat} (small : n < 65536) :
    readFour (hexDigit (n / 4096)) (hexDigit (n / 256 % 16)) (hexDigit (n / 16 % 16))
      (hexDigit (n % 16)) = n := by
  unfold readFour
  rw [hexValue_hexDigit _ (by omega), hexValue_hexDigit _ (by omega),
    hexValue_hexDigit _ (by omega), hexValue_hexDigit _ (by omega)]
  omega

/-! ## Characters -/

/-- The characters with an escape of their own, and the letter after the backslash. -/
def shortEscapes : List (Char × Char) :=
  [('\"', '\"'), ('\\', '\\'), ('\n', 'n'), ('\r', 'r'), ('\t', 't'), (Char.ofNat 12, 'f'),
    (Char.ofNat 8, 'b')]

/-- The character that a short escape stands for, by its letter. -/
def shortMeanings : List (Char × Char) := shortEscapes.map Prod.swap

/-- A code unit written as a numeric escape. -/
def unitEscape (n : Nat) : List Char := '\\' :: 'u' :: hexFour n

/-- The text of a character inside a JSON string, in ASCII only. -/
def escapeChar (c : Char) : List Char :=
  match shortEscapes.lookup c with
  | some letter => ['\\', letter]
  | none =>
    if 32 ≤ c.toNat ∧ c.toNat < 127 then [c]
    else if c.toNat < 65536 then unitEscape c.toNat
    else unitEscape (55296 + (c.toNat - 65536) / 1024) ++
      unitEscape (56320 + (c.toNat - 65536) % 1024)

/-- Read a numeric escape after its backslash and letter, together with the second one when
the first is the high half of a pair. -/
def unescapeUnit : List Char → Option (Char × List Char)
  | a :: b :: c :: d :: rest =>
    let unit := readFour a b c d
    if 55296 ≤ unit ∧ unit < 56320 then
      match rest with
      | _ :: _ :: e :: f :: g :: h :: rest =>
        some (Char.ofNat (65536 + (unit - 55296) * 1024 + (readFour e f g h - 56320)), rest)
      | _ => none
    else some (Char.ofNat unit, rest)
  | _ => none

/-- Read one character of a JSON string. -/
def unescape : List Char → Option (Char × List Char)
  | [] => none
  | first :: rest =>
    if first = '\\' then
      match rest with
      | [] => none
      | letter :: rest =>
        if letter = 'u' then unescapeUnit rest
        else (shortMeanings.lookup letter).map fun c => (c, rest)
    else some (first, rest)

theorem lookup_mem {α β : Type} [BEq α] [LawfulBEq α] {a : α} {b : β} {entries : List (α × β)}
    (found : entries.lookup a = some b) : (a, b) ∈ entries := by
  induction entries with
  | nil => simp at found
  | cons entry entries ih =>
      obtain ⟨a', b'⟩ := entry
      by_cases same : a = a'
      · subst same
        simp only [List.lookup_cons_self, Option.some.injEq] at found
        simp [found]
      · rw [List.lookup_cons, beq_false_of_ne same] at found
        exact List.mem_cons_of_mem _ (ih found)

theorem shortEscapes_read : ∀ entry ∈ shortEscapes,
    entry.2 ≠ 'u' ∧ shortMeanings.lookup entry.2 = some entry.1 := by decide

theorem shortEscapes_backslash : (shortEscapes.lookup '\\').isSome = true := by decide

/-- A character outside the basic plane. -/
theorem toNat_lt (c : Char) : c.toNat < 1114112 := by
  have valid := c.valid
  rcases valid with below | ⟨_, above⟩
  · exact Nat.lt_trans below (by decide)
  · exact above

theorem not_surrogate (c : Char) : ¬ (55296 ≤ c.toNat ∧ c.toNat < 57344) := by
  rintro ⟨least, below⟩
  rcases c.valid with low | ⟨high, _⟩
  · exact absurd low (Nat.not_lt.mpr least)
  · have : 57343 < c.toNat := high
    omega

/-- **The escape of a character reads back as that character, whatever follows.** -/
theorem unescape_escapeChar (c : Char) (rest : List Char) :
    unescape (escapeChar c ++ rest) = some (c, rest) := by
  unfold escapeChar
  split
  · next letter found =>
      obtain ⟨notUnit, meaning⟩ := shortEscapes_read _ (lookup_mem found)
      simp only at notUnit meaning
      simp [unescape, notUnit, meaning]
  · next missing =>
      split_ifs with printable basic
      · have notBackslash : c ≠ '\\' := by
          rintro rfl
          have := shortEscapes_backslash
          rw [missing] at this
          cases this
        simp [unescape, notBackslash]
      · have plain : ¬ (55296 ≤ c.toNat ∧ c.toNat < 56320) := fun high =>
          not_surrogate c ⟨high.1, by omega⟩
        simp only [unitEscape, hexFour, List.cons_append, List.nil_append, unescape, if_true,
          unescapeUnit, readFour_hexFour basic, if_neg plain, Char.ofNat_toNat]
      · have bound := toNat_lt c
        -- The two halves of the pair are in their ranges, and together give the character.
        have high : readFour _ _ _ _ = 55296 + (c.toNat - 65536) / 1024 :=
          readFour_hexFour (by omega)
        have low : readFour _ _ _ _ = 56320 + (c.toNat - 65536) % 1024 :=
          readFour_hexFour (by omega)
        have isHigh : 55296 ≤ 55296 + (c.toNat - 65536) / 1024 ∧
            55296 + (c.toNat - 65536) / 1024 < 56320 := by omega
        have joined : 65536 + (55296 + (c.toNat - 65536) / 1024 - 55296) * 1024 +
            (56320 + (c.toNat - 65536) % 1024 - 56320) = c.toNat := by omega
        simp only [unitEscape, hexFour, List.cons_append, List.nil_append, unescape, if_true,
          unescapeUnit, high, low, if_pos isHigh, joined, Char.ofNat_toNat]

theorem shortEscapes_quote : (shortEscapes.lookup '\"').isSome = true := by decide

theorem escapeChar_ne_quote (c : Char) (rest later : List Char) :
    escapeChar c ++ rest ≠ '\"' :: later := by
  unfold escapeChar
  split
  · simp
  · next missing =>
      split_ifs with printable basic
      · intro same
        have : c = '\"' := by simpa using congrArg List.head? same
        subst this
        have := shortEscapes_quote
        rw [missing] at this
        cases this
      · simp [unitEscape]
      · simp [unitEscape]

/-! ## Strings and objects -/

/-- The quoted text of a string. -/
def stringText (s : String) : List Char :=
  '\"' :: (s.toList.flatMap escapeChar ++ ['\"'])

theorem escaped_append_inj {cs cs' : List Char} {rest rest' : List Char}
    (same : cs.flatMap escapeChar ++ '\"' :: rest = cs'.flatMap escapeChar ++ '\"' :: rest') :
    cs = cs' ∧ rest = rest' := by
  induction cs generalizing cs' with
  | nil =>
      cases cs' with
      | nil => simpa using same
      | cons c' cs' =>
          rw [List.flatMap_cons, List.append_assoc] at same
          exact absurd same.symm (escapeChar_ne_quote c' _ _)
  | cons c cs ih =>
      cases cs' with
      | nil =>
          rw [List.flatMap_cons, List.append_assoc] at same
          exact absurd same (escapeChar_ne_quote c _ _)
      | cons c' cs' =>
          rw [List.flatMap_cons, List.flatMap_cons, List.append_assoc, List.append_assoc] at same
          have read := congrArg unescape same
          rw [unescape_escapeChar, unescape_escapeChar] at read
          obtain ⟨rfl, tails⟩ := Prod.mk.inj (Option.some.inj read)
          obtain ⟨rfl, rests⟩ := ih tails
          exact ⟨rfl, rests⟩

theorem stringText_append_inj {s s' : String} {rest rest' : List Char}
    (same : stringText s ++ rest = stringText s' ++ rest') : s = s' ∧ rest = rest' := by
  simp only [stringText, List.cons_append, List.append_assoc, List.nil_append,
    List.cons.injEq, true_and] at same
  obtain ⟨chars, rests⟩ := escaped_append_inj same
  exact ⟨String.toList_inj.mp chars, rests⟩

/-- One member of an object. -/
def memberText (entry : String × String) : List Char :=
  stringText entry.1 ++ ':' :: stringText entry.2

/-- The members after the first, up to the closing brace. -/
def membersText : List (String × String) → List Char
  | [] => ['\x7d']
  | entry :: entries => ',' :: (memberText entry ++ membersText entries)

/-- The compact object with the given members, in the given order. -/
def objectText : List (String × String) → List Char
  | [] => ['\x7b', '\x7d']
  | entry :: entries => '\x7b' :: (memberText entry ++ membersText entries)

theorem memberText_append_inj {entry entry' : String × String} {rest rest' : List Char}
    (same : memberText entry ++ rest = memberText entry' ++ rest') :
    entry = entry' ∧ rest = rest' := by
  simp only [memberText, List.append_assoc, List.cons_append] at same
  obtain ⟨keys, later⟩ := stringText_append_inj same
  obtain ⟨values, rests⟩ := stringText_append_inj (List.cons.inj later).2
  exact ⟨Prod.ext keys values, rests⟩

theorem membersText_injective {entries entries' : List (String × String)}
    (same : membersText entries = membersText entries') : entries = entries' := by
  induction entries generalizing entries' with
  | nil =>
      cases entries' with
      | nil => rfl
      | cons entry' entries' => simp [membersText] at same
  | cons entry entries ih =>
      cases entries' with
      | nil => simp [membersText] at same
      | cons entry' entries' =>
          obtain ⟨rfl, later⟩ := memberText_append_inj (List.cons.inj same).2
          rw [ih later]

/-- **The text of an object determines its members.** -/
theorem objectText_injective {entries entries' : List (String × String)}
    (same : objectText entries = objectText entries') : entries = entries' := by
  cases entries with
  | nil =>
      cases entries' with
      | nil => rfl
      | cons entry' entries' => simp [objectText, memberText, stringText] at same
  | cons entry entries =>
      cases entries' with
      | nil => simp [objectText, memberText, stringText] at same
      | cons entry' entries' =>
          obtain ⟨rfl, later⟩ := memberText_append_inj (List.cons.inj same).2
          rw [membersText_injective later]

/-! ## Maps -/

/-- Entries in the order of their keys. -/
def sortedEntries (entries : List (String × String)) : List (String × String) :=
  entries.insertionSort fun a b => a.1 ≤ b.1

/-- The canonical text of a map: its object with the keys sorted. -/
def canonicalText (entries : List (String × String)) : String :=
  String.ofList (objectText (sortedEntries entries))

/-- **The canonical text determines the map**, whatever the order of the entries. -/
theorem canonicalText_perm {entries entries' : List (String × String)}
    (same : canonicalText entries = canonicalText entries') : entries.Perm entries' := by
  have objects := congrArg String.toList same
  rw [canonicalText, canonicalText, String.toList_ofList, String.toList_ofList] at objects
  have sorted : sortedEntries entries = sortedEntries entries' := objectText_injective objects
  calc entries
      _ |>.Perm (sortedEntries entries) := (List.perm_insertionSort _ _).symm
      _ |>.Perm (sortedEntries entries') := by rw [sorted]
      _ |>.Perm entries' := List.perm_insertionSort _ _

end PowerMarket.Library.JsonText
