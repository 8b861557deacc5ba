import Mathlib.Data.Char
import Mathlib.Data.List.DropRight

/-!
# Text as Python reads it

A text is a list of characters.  The definitions follow what Python does with
one when a file is read in text mode and its lines are taken apart: `lines`
after the translation of line ends, `strip`, `lower` and `int16`, which is
`int(s, 16)` and fails with `none`.

* `strip_pad`: padding around a text that neither begins nor ends with a space goes;
* `int16_hex`: hexadecimal digits, with or without the prefix, give their value.
-/

namespace TaskQueueCoSim.PyText

/-! ## Lines -/

/-- What a text-mode file gives for the line ends of its content. -/
def universalNewlines : List Char → List Char
  | '\r' :: '\n' :: cs => '\n' :: universalNewlines cs
  | '\r' :: cs => '\n' :: universalNewlines cs
  | c :: cs => c :: universalNewlines cs
  | [] => []

/-- The lines of a text, each with the newline that ends it. -/
def splitLines : List Char → List (List Char)
  | [] => []
  | c :: cs =>
    if c = '\n' then [c] :: splitLines cs
    else
      match splitLines cs with
      | [] => [[c]]
      | line :: rest => (c :: line) :: rest

def lines (text : List Char) : List (List Char) := splitLines (universalNewlines text)

/-! ## Characters -/

/-- The characters of `str.isspace`. -/
def spaces : List Nat :=
  [0x9, 0xa, 0xb, 0xc, 0xd, 0x1c, 0x1d, 0x1e, 0x1f, 0x20, 0x85, 0xa0, 0x1680, 0x2000, 0x2001,
    0x2002, 0x2003, 0x2004, 0x2005, 0x2006, 0x2007, 0x2008, 0x2009, 0x200a, 0x2028, 0x2029,
    0x202f, 0x205f, 0x3000]

def isSpace (c : Char) : Bool := spaces.contains c.toNat

/-- The zeros of the decimal digits beyond ASCII; nine digits follow each. -/
def zeros : List Nat :=
  [0x660, 0x6f0, 0x7c0, 0x966, 0x9e6, 0xa66, 0xae6, 0xb66, 0xbe6, 0xc66, 0xce6, 0xd66, 0xde6,
    0xe50, 0xed0, 0xf20, 0x1040, 0x1090, 0x17e0, 0x1810, 0x1946, 0x19d0, 0x1a80, 0x1a90, 0x1b50,
    0x1bb0, 0x1c40, 0x1c50, 0xa620, 0xa8d0, 0xa900, 0xa9d0, 0xa9f0, 0xaa50, 0xabf0, 0xff10,
    0x104a0, 0x10d30, 0x11066, 0x110f0, 0x11136, 0x111d0, 0x112f0, 0x11450, 0x114d0, 0x11650,
    0x116c0, 0x11730, 0x118e0, 0x11950, 0x11c50, 0x11d50, 0x11da0, 0x16a60, 0x16ac0, 0x16b50,
    0x1d7ce, 0x1d7d8, 0x1d7e2, 0x1d7ec, 0x1d7f6, 0x1e140, 0x1e2f0, 0x1e950, 0x1fbf0]

/-- The ASCII digit for any decimal digit, and `?` for what no number contains. -/
def toAscii (c : Char) : Char :=
  if c.toNat < 128 then c
  else
    match zeros.find? fun z => z ≤ c.toNat && c.toNat < z + 10 with
    | some z => Char.ofNat (48 + (c.toNat - z))
    | none => '?'

def hexValue (c : Char) : Option Nat :=
  if 48 ≤ c.toNat ∧ c.toNat ≤ 57 then some (c.toNat - 48)
  else if 97 ≤ c.toNat ∧ c.toNat ≤ 102 then some (c.toNat - 87)
  else if 65 ≤ c.toNat ∧ c.toNat ≤ 70 then some (c.toNat - 55)
  else none

/-! ## Strings -/

def strip (s : List Char) : List Char := (s.dropWhile isSpace).rdropWhile isSpace

/-- `str.lower` on ASCII letters.  Of the letters beyond ASCII it makes an ASCII
letter only of the Kelvin sign (k) and the dotted capital I (i and a dot). -/
def lower (s : List Char) : List Char := s.map Char.toLower

/-- The digits of a number; an underscore may stand between two of them. -/
def hexDigits (acc : Nat) (afterUnderscore : Bool) : List Char → Option Nat
  | [] => if afterUnderscore then none else some acc
  | c :: cs =>
    if c = '_' then if afterUnderscore then none else hexDigits acc true cs
    else
      match hexValue c with
      | some d => hexDigits (16 * acc + d) false cs
      | none => none

/-- The prefix, and one underscore behind it. -/
def dropPrefix : List Char → List Char
  | '0' :: 'x' :: '_' :: cs => cs
  | '0' :: 'X' :: '_' :: cs => cs
  | '0' :: 'x' :: cs => cs
  | '0' :: 'X' :: cs => cs
  | cs => cs

def nat16 (s : List Char) : Option Nat := hexDigits 0 true (dropPrefix s)

/-- `int(s, 16)` for a stripped `s`. -/
def int16 (s : List Char) : Option Int :=
  match s.map toAscii with
  | '-' :: cs => (nat16 cs).map fun n => -(n : Int)
  | '+' :: cs => (nat16 cs).map Int.ofNat
  | cs => (nat16 cs).map Int.ofNat

/-- Lower case leaves a space as it is. -/
theorem toLower_of_isSpace {c : Char} (h : isSpace c = true) : c.toLower = c := by
  have all : ∀ n ∈ spaces, (Char.ofNat n).toLower = Char.ofNat n := by decide
  have := all c.toNat (by simpa [isSpace] using h)
  rwa [Char.ofNat_toNat] at this

/-- A character that lower case leaves as it is stays in the text. -/
theorem mem_lower {c : Char} {s : List Char} (h : c ∈ s) (hc : c.toLower = c) : c ∈ lower s := by
  have := List.mem_map_of_mem (f := Char.toLower) h
  rwa [hc] at this

/-! ## Texts that are lines -/

theorem universalNewlines_of_not_mem {text : List Char} (h : '\r' ∉ text) :
    universalNewlines text = text := by
  induction text with
  | nil => rfl
  | cons c cs ih =>
    have hc : c ≠ '\r' := fun e => h (by simp [e])
    have hcs : universalNewlines cs = cs := ih fun hm => h (by simp [hm])
    unfold universalNewlines
    split <;> simp_all

theorem splitLines_append {line : List Char} (h : '\n' ∉ line) (rest : List Char) :
    splitLines (line ++ '\n' :: rest) = (line ++ ['\n']) :: splitLines rest := by
  induction line with
  | nil => simp [splitLines]
  | cons c cs ih =>
    have hc : c ≠ '\n' := fun e => h (by simp [e])
    have hcs := ih fun hm => h (by simp [hm])
    rw [List.cons_append, splitLines, if_neg hc, hcs]
    rfl

/-- A text put together from lines is taken apart into them. -/
theorem lines_flatten {texts : List (List Char)} (h : ∀ t ∈ texts, '\r' ∉ t ∧ '\n' ∉ t) :
    lines (texts.map fun t => t ++ ['\n']).flatten = texts.map fun t => t ++ ['\n'] := by
  have hr : '\r' ∉ (texts.map fun t => t ++ ['\n']).flatten := by
    intro hm
    obtain ⟨l, hl, hc⟩ := List.mem_flatten.mp hm
    obtain ⟨t, ht, rfl⟩ := List.mem_map.mp hl
    rcases List.mem_append.mp hc with hc | hc
    · exact (h t ht).1 hc
    · exact absurd hc (by decide)
  rw [lines, universalNewlines_of_not_mem hr]
  clear hr
  induction texts with
  | nil => rfl
  | cons t texts ih =>
    have hrest := ih fun t ht => h t (by simp [ht])
    rw [List.map_cons, List.flatten_cons, List.append_assoc, List.singleton_append,
      splitLines_append (h t (by simp)).2, hrest]

/-! ## What stripping leaves -/

theorem rdropWhile_append_of_forall {p : Char → Bool} (s : List Char) {pad : List Char}
    (h : ∀ c ∈ pad, p c = true) : (s ++ pad).rdropWhile p = s.rdropWhile p := by
  induction pad using List.reverseRecOn with
  | nil => rw [List.append_nil]
  | append_singleton pad c ih =>
    rw [← List.append_assoc, List.rdropWhile_concat_pos p _ c (h c (by simp))]
    exact ih fun c' hc' => h c' (by simp [hc'])

/-- Neither end of the text is a space. -/
structure Trimmed (s : List Char) : Prop where
  head : ∀ c ∈ s.head?, isSpace c = false
  last : ∀ c ∈ s.getLast?, isSpace c = false

theorem trimmed_of_forall {s : List Char} (h : ∀ c ∈ s, isSpace c = false) : Trimmed s where
  head := fun c hc => h c (List.mem_of_mem_head? hc)
  last := fun c hc => h c (List.mem_of_getLast? hc)

/-- Between two trimmed texts anything may stand. -/
theorem Trimmed.append {s t : List Char} (hs : Trimmed s) (ht : Trimmed t) (mid : List Char)
    (hs' : s ≠ []) (ht' : t ≠ []) : Trimmed (s ++ mid ++ t) where
  head := by
    rw [List.append_assoc, List.head?_append_of_ne_nil _ hs']
    exact hs.head
  last := by
    rw [List.getLast?_append_of_ne_nil _ ht']
    exact ht.last

theorem Trimmed.dropWhile {s : List Char} (hs : Trimmed s) (hs' : s ≠ []) (rest : List Char) :
    (s ++ rest).dropWhile isSpace = s ++ rest := by
  obtain ⟨c, cs, rfl⟩ := List.exists_cons_of_ne_nil hs'
  have hc : isSpace c = false := hs.head c rfl
  rw [List.cons_append, List.dropWhile_cons_of_neg (by simp [hc])]

theorem Trimmed.rdropWhile {s : List Char} (hs : Trimmed s) : s.rdropWhile isSpace = s := by
  rw [List.rdropWhile_eq_self_iff]
  intro hs' hlast
  have := hs.last _ (List.getLast?_eq_some_getLast hs')
  rw [hlast] at this
  cases this

/-- Padding goes, and a trimmed text stays. -/
theorem strip_pad {pad pad' s : List Char} (h : ∀ c ∈ pad, isSpace c = true)
    (h' : ∀ c ∈ pad', isSpace c = true) (hs : Trimmed s) : strip (pad ++ s ++ pad') = s := by
  unfold strip
  rw [List.append_assoc, List.dropWhile_append_of_pos h]
  by_cases hnil : s = []
  · subst hnil
    rw [List.nil_append, List.dropWhile_eq_nil_iff.mpr h']
    rfl
  · rw [hs.dropWhile hnil, rdropWhile_append_of_forall s h', hs.rdropWhile]

/-! ## Fields -/

/-- A text splits into two fields exactly if it has one separator. -/
theorem splitOn_eq_pair_iff (s a b : List Char) (sep : Char) :
    s.splitOn sep = [a, b] ↔ s = a ++ sep :: b ∧ sep ∉ a ∧ sep ∉ b := by
  constructor
  · intro h
    have hs : s = a ++ sep :: b := by
      have : [sep].intercalate (s.splitOn sep) = s := List.intercalate_splitOn sep
      rw [h] at this
      simpa [List.intercalate] using this.symm
    -- each field is one text when it is split again, since there are only two
    have hlength : ((a.splitOn sep).length + (b.splitOn sep).length) = 2 := by
      rw [← List.length_append, ← List.splitOn_append_cons_self, ← hs, h]
      rfl
    have field : ∀ t : List Char, sep ∈ t → 2 ≤ (t.splitOn sep).length := by
      intro t ht
      obtain ⟨l, r, rfl⟩ := List.append_of_mem ht
      have hl := List.length_pos_of_ne_nil (List.splitOn_ne_nil sep l)
      have hr := List.length_pos_of_ne_nil (List.splitOn_ne_nil sep r)
      rw [List.splitOn_append_cons_self, List.length_append]
      omega
    have ha := List.length_pos_of_ne_nil (List.splitOn_ne_nil sep a)
    have hb := List.length_pos_of_ne_nil (List.splitOn_ne_nil sep b)
    refine ⟨hs, fun hm => ?_, fun hm => ?_⟩
    · have := field a hm
      omega
    · have := field b hm
      omega
  · rintro ⟨rfl, ha, hb⟩
    rw [List.splitOn_append_cons_self_of_not_mem ha, List.splitOn_eq_singleton hb]

/-! ## Numbers -/

/-- The value of a digit, taken as 0 where there is none. -/
def digit (c : Char) : Nat := (hexValue c).getD 0

/-- The value of hexadecimal digits, the leading one first. -/
def hexNat (digits : List Char) : Nat := digits.foldl (fun acc c => 16 * acc + digit c) 0

/-- What a hexadecimal digit is not. -/
theorem hexValue_ne {c c' : Char} (h : (hexValue c).isSome) (h' : hexValue c' = none) : c ≠ c' := by
  rintro rfl
  rw [h'] at h
  cases h

theorem hexValue_ascii {c : Char} (h : (hexValue c).isSome) : 48 ≤ c.toNat ∧ c.toNat ≤ 102 := by
  unfold hexValue at h
  split_ifs at h <;> simp_all <;> omega

theorem toAscii_of_hexValue {c : Char} (h : (hexValue c).isSome) : toAscii c = c := by
  have := hexValue_ascii h
  exact if_pos (by omega)

theorem isSpace_of_hexValue {c : Char} (h : (hexValue c).isSome) : isSpace c = false := by
  have := hexValue_ascii h
  simp only [isSpace, spaces, List.contains_eq_mem, List.mem_cons, List.not_mem_nil, or_false,
    decide_eq_false_iff_not]
  omega

theorem hexDigits_eq {digits : List Char} (h : ∀ c ∈ digits, (hexValue c).isSome) (acc : Nat) :
    hexDigits acc false digits = some (digits.foldl (fun acc c => 16 * acc + digit c) acc) := by
  induction digits generalizing acc with
  | nil => rfl
  | cons c cs ih =>
    have hc := h c (by simp)
    obtain ⟨d, hd⟩ := Option.isSome_iff_exists.mp hc
    have hne : c ≠ '_' := hexValue_ne hc (by decide)
    simp only [hexDigits, hne, if_false, hd, List.foldl_cons, digit, Option.getD_some]
    exact ih (fun c' hc' => h c' (by simp [hc'])) _

/-- The flag for an underscore does not matter before a digit. -/
theorem hexDigits_first {digits : List Char} (hnil : digits ≠ [])
    (h : ∀ c ∈ digits, (hexValue c).isSome) (acc : Nat) :
    hexDigits acc true digits = hexDigits acc false digits := by
  obtain ⟨c, cs, rfl⟩ := List.exists_cons_of_ne_nil hnil
  have hne : c ≠ '_' := hexValue_ne (h c (by simp)) (by decide)
  simp only [hexDigits, hne, if_false]

/-- The ways a hexadecimal number may begin. -/
def hexPrefixes : List (List Char) := [[], ['0', 'x'], ['0', 'X']]

theorem dropPrefix_hex {pre digits : List Char} (hp : pre ∈ hexPrefixes)
    (h : ∀ c ∈ digits, (hexValue c).isSome) : dropPrefix (pre ++ digits) = digits := by
  have hx : ∀ c ∈ digits, c ≠ 'x' ∧ c ≠ 'X' ∧ c ≠ '_' := fun c hc =>
    ⟨hexValue_ne (h c hc) (by decide), hexValue_ne (h c hc) (by decide),
      hexValue_ne (h c hc) (by decide)⟩
  simp only [hexPrefixes, List.mem_cons, List.not_mem_nil, or_false] at hp
  rcases hp with rfl | rfl | rfl
  · unfold dropPrefix
    split <;> simp_all
  · unfold dropPrefix
    split <;> simp_all
  · unfold dropPrefix
    split <;> simp_all

/-- **Numbers.**  Hexadecimal digits, prefixed or not, give their value. -/
theorem int16_hex {pre digits : List Char} (hp : pre ∈ hexPrefixes) (hnil : digits ≠ [])
    (h : ∀ c ∈ digits, (hexValue c).isSome) : int16 (pre ++ digits) = some (hexNat digits : Int) := by
  have hnat : nat16 (pre ++ digits) = some (hexNat digits) := by
    rw [nat16, dropPrefix_hex hp h, hexDigits_first hnil h, hexDigits_eq h, hexNat]
  have hascii : (pre ++ digits).map toAscii = pre ++ digits := by
    rw [List.map_append, List.map_congr_left fun c hc => toAscii_of_hexValue (h c hc), List.map_id']
    congr 1
    simp only [hexPrefixes, List.mem_cons, List.not_mem_nil, or_false] at hp
    rcases hp with rfl | rfl | rfl <;> decide
  have hsign : ∀ c ∈ (pre ++ digits).head?, c ≠ '-' ∧ c ≠ '+' := by
    simp only [hexPrefixes, List.mem_cons, List.not_mem_nil, or_false] at hp
    obtain ⟨d, ds, rfl⟩ := List.exists_cons_of_ne_nil hnil
    have hd := h d (by simp)
    rcases hp with rfl | rfl | rfl
    · simpa using ⟨hexValue_ne hd (by decide), hexValue_ne hd (by decide)⟩
    · simp
    · simp
  unfold int16
  rw [hascii]
  split
  · exact absurd rfl (hsign _ (by simp_all)).1
  · exact absurd rfl (hsign _ (by simp_all)).2
  · rw [hnat]
    rfl

end TaskQueueCoSim.PyText
