import Mathlib.Data.List.DropRight
import Mathlib.Data.List.Infix

/-! Text operations the program takes from its standard library, on lists of
characters so that they can be evaluated. -/
namespace Cronova.Text

/-- White space in the sense of Unicode's `White_Space` property. -/
def isSpace (c : Char) : Bool :=
  (9 ≤ c.toNat && c.toNat ≤ 13) || c.toNat == 0x20 || c.toNat == 0x85 || c.toNat == 0xA0 || c.toNat == 0x1680 ||
    (0x2000 ≤ c.toNat && c.toNat ≤ 0x200A) || c.toNat == 0x2028 || c.toNat == 0x2029 || c.toNat == 0x202F ||
    c.toNat == 0x205F || c.toNat == 0x3000

def trimSpaceChars (cs : List Char) : List Char :=
  ((cs.dropWhile isSpace).reverse.dropWhile isSpace).reverse

def trimSpace (s : String) : String := String.ofList (trimSpaceChars s.toList)

def hasPrefix (s front : String) : Bool := front.toList.isPrefixOf s.toList

def hasSuffix (s back : String) : Bool := back.toList.isSuffixOf s.toList

/-- The text after `front`, when `s` starts with it. -/
def cutPrefix (s front : String) : Option String :=
  if hasPrefix s front then some (String.ofList (s.toList.drop front.toList.length)) else none

/-- The text before the first `sep` and the text after it. -/
def cut (s : String) (sep : Char) : Option (String × String) :=
  match s.toList.dropWhile (· ≠ sep) with
  | [] => none
  | _ :: back => some (String.ofList (s.toList.takeWhile (· ≠ sep)), String.ofList back)

def contains (s sub : String) : Bool := s.toList.tails.any (sub.toList.isPrefixOf ·)

/-- Lower case as far as it can produce ASCII: two letters outside ASCII have an
ASCII lower case. -/
def toLower (s : String) : String :=
  String.ofList (s.toList.map (fun c =>
    if c.toNat = 0x130 then 'i' else if c.toNat = 0x212A then 'k' else c.toLower))

/-- `v`, or `default` when it is empty. -/
def orDefault (v default : String) : String := if v = "" then default else v

/-- A double-quoted Go literal of a text. -/
def quote (s : String) : String :=
  let escape (c : Char) : List Char :=
    if c = '"' then ['\\', '"'] else if c = '\\' then ['\\', '\\'] else if c = '\n' then ['\\', 'n']
    else if c = '\t' then ['\\', 't'] else if c = '\r' then ['\\', 'r'] else [c]
  String.ofList (['"'] ++ s.toList.flatMap escape ++ ['"'])

def isWordChar (extra : List Char) (c : Char) : Bool := c.isAlphanum || extra.contains c

/-- `^[A-Za-z0-9][A-Za-z0-9<extra>]*$` -/
def matchesID (extra : List Char) (s : String) : Bool :=
  match s.toList with
  | [] => false
  | c :: cs => c.isAlphanum && cs.all (isWordChar extra)

/-- The pattern of dag and task ids. -/
def idPattern (s : String) : Bool := matchesID ['_', '.', '-'] s

/-- The pattern of external event keys. -/
def eventKeyPattern (s : String) : Bool := matchesID ['_', '.', ':', '-'] s

/-- A number is written with decimal digits. -/
theorem digits_nat (n : Nat) : ∀ c ∈ (toString n).toList, c.isDigit = true := by
  intro c hc
  have hmem : c ∈ Nat.toDigits 10 n := by
    have hlist : (toString n).toList = Nat.toDigits 10 n := String.toList_ofList
    rwa [hlist] at hc
  exact Nat.isDigit_of_mem_toDigits (by decide) (by decide) hmem

theorem hasPrefix_append (front rest : String) : hasPrefix (front ++ rest) front = true := by
  simp [hasPrefix, String.toList_append]

theorem hasSuffix_append (rest back : String) : hasSuffix (rest ++ back) back = true := by
  rw [hasSuffix, String.toList_append, List.isSuffixOf_iff_suffix]
  exact List.suffix_append _ _

theorem cutPrefix_append (front rest : String) : cutPrefix (front ++ rest) front = some rest := by
  simp [cutPrefix, hasPrefix_append, String.toList_append]

theorem cutPrefix_eq_some {s front rest : String} (h : cutPrefix s front = some rest) : s = front ++ rest := by
  unfold cutPrefix at h
  split at h
  · rename_i hpre
    obtain ⟨t, ht⟩ := List.isPrefixOf_iff_prefix.mp hpre
    cases h
    apply String.toList_injective
    rw [String.toList_append, String.toList_ofList, ← ht, List.drop_left]
  · cases h

theorem cut_append {front : String} {sep : Char} (h : sep ∉ front.toList) (back : String) :
    cut (front ++ String.singleton sep ++ back) sep = some (front, back) := by
  have hfree : ∀ c ∈ front.toList, decide (c ≠ sep) = true := by
    intro c hc
    exact decide_eq_true (fun heq => h (heq ▸ hc))
  have hchars : (front ++ String.singleton sep ++ back).toList = front.toList ++ sep :: back.toList := by
    simp [String.toList_append]
  rw [cut, hchars, List.dropWhile_append_of_pos hfree, List.takeWhile_append_of_pos hfree]
  simp

theorem cut_eq_some {s front back : String} {sep : Char} (h : cut s sep = some (front, back)) :
    s = front ++ String.singleton sep ++ back ∧ sep ∉ front.toList := by
  unfold cut at h
  split at h
  · cases h
  · rename_i c rest hdrop
    cases h
    have hc : c = sep := by
      have hpos : 0 < (s.toList.dropWhile (fun x => decide (x ≠ sep))).length := by rw [hdrop]; simp
      have hhead := List.dropWhile_get_zero_not (fun x => decide (x ≠ sep)) s.toList hpos
      rw [List.get_eq_getElem] at hhead
      simp only [hdrop, List.getElem_cons_zero, decide_eq_true_eq, not_not] at hhead
      exact hhead
    subst hc
    constructor
    · apply String.toList_injective
      simp only [String.toList_append, String.toList_ofList, String.toList_singleton, List.append_assoc, List.singleton_append]
      rw [← hdrop, List.takeWhile_append_dropWhile]
    · rw [String.toList_ofList]
      intro hmem
      have hne := List.mem_takeWhile_imp hmem
      simp at hne

private theorem dropWhile_digits {a ds : List Char} (hds : ∀ c ∈ ds, c.isDigit = true)
    (ha : ∀ c, a.getLast? = some c → c.isDigit = false) :
    (a ++ ds).reverse.dropWhile Char.isDigit = a.reverse := by
  have hdigits : ∀ c ∈ ds.reverse, c.isDigit = true := fun c hc => hds c (List.mem_reverse.mp hc)
  rw [List.reverse_append, List.dropWhile_append_of_pos hdigits]
  cases hrev : a.reverse with
  | nil => rfl
  | cons c cs =>
    have hlast : a.getLast? = some c := by rw [← List.head?_reverse, hrev]; rfl
    exact List.dropWhile_cons_of_neg (by simp [ha c hlast])

/-- A text splits in one way into a front that does not end in a digit, and digits. -/
theorem digits_split {a b ds es : List Char} (h : a ++ ds = b ++ es) (hds : ∀ c ∈ ds, c.isDigit = true)
    (hes : ∀ c ∈ es, c.isDigit = true) (ha : ∀ c, a.getLast? = some c → c.isDigit = false)
    (hb : ∀ c, b.getLast? = some c → c.isDigit = false) : a = b ∧ ds = es := by
  have hfront : a.reverse = b.reverse := by
    rw [← dropWhile_digits hds ha, h, dropWhile_digits hes hb]
  have heq : a = b := List.reverse_inj.mp hfront
  subst heq
  exact ⟨rfl, List.append_cancel_left h⟩

private theorem trimSpaceChars_idem (cs : List Char) : trimSpaceChars (trimSpaceChars cs) = trimSpaceChars cs := by
  have hback : trimSpaceChars cs = List.rdropWhile isSpace (cs.dropWhile isSpace) := rfl
  have hfront : (trimSpaceChars cs).dropWhile isSpace = trimSpaceChars cs := by
    rw [List.dropWhile_eq_self_iff]
    intro hpos hspace
    obtain ⟨rest, hsplit⟩ := hback ▸ List.rdropWhile_prefix isSpace (l := cs.dropWhile isSpace)
    have hpos' : 0 < (cs.dropWhile isSpace).length := by
      rw [← hsplit, List.length_append]
      omega
    have hhead : (cs.dropWhile isSpace)[0] = (trimSpaceChars cs)[0] := by
      simp only [← hsplit, List.getElem_append_left hpos]
    refine List.dropWhile_get_zero_not isSpace cs hpos' ?_
    rw [List.get_eq_getElem, hhead]
    exact hspace
  have hagain : trimSpaceChars (trimSpaceChars cs) = List.rdropWhile isSpace ((trimSpaceChars cs).dropWhile isSpace) := rfl
  rw [hagain, hfront, hback, List.rdropWhile_idempotent]

theorem trimSpace_idem (s : String) : trimSpace (trimSpace s) = trimSpace s := by
  simp only [trimSpace, String.toList_ofList, trimSpaceChars_idem]

theorem trimSpace_infix (s : String) : ∃ front back, s = front ++ trimSpace s ++ back := by
  have hback : trimSpaceChars s.toList <+: s.toList.dropWhile isSpace := List.rdropWhile_prefix isSpace _
  obtain ⟨front, back, hsplit⟩ := hback.isInfix.trans (List.dropWhile_suffix isSpace).isInfix
  refine ⟨String.ofList front, String.ofList back, ?_⟩
  rw [trimSpace, ← String.ofList_append, ← String.ofList_append, hsplit, String.ofList_toList]

theorem trimSpace_size (s : String) : (trimSpace s).utf8ByteSize ≤ s.utf8ByteSize := by
  obtain ⟨front, back, hsplit⟩ := trimSpace_infix s
  have hsize := congrArg String.utf8ByteSize hsplit
  rw [String.utf8ByteSize_append, String.utf8ByteSize_append] at hsize
  omega

end Cronova.Text
