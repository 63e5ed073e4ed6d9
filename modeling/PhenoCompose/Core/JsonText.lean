/-
Compact JSON text determines the value it was written from, as long as no floating-point number is in it.

The text of a value is told apart from any other by its first bytes: strings end at the first quote that is not escaped,
arrays and objects at their bracket, and a number where the digits end, so what follows must not begin with a digit.

- `utf8_prefix_free`, `writeChar_prefix_free`, `writeString_prefix_free`: characters and strings.
- `sequence_prefix_free`: texts joined by commas and closed by a bracket, for texts of any kind that can be told apart.
- `toVec_prefix_free`, `toVec_injective`: values.
- `Codec.integral_*`, `Fields.integral_*`: what a codec writes has no floating-point number in it, combinator by
  combinator; `integral_canonicalize`: nor has it after sorting the members.
-/
import PhenoCompose.Core.Json

namespace Core.Json

open Core.Collections Core.Text

/-! ## Characters and strings -/

/-- no encoded character is the beginning of another -/
theorem utf8_prefix_free {c d : Char} {x y : Bytes} (h : String.utf8EncodeChar c ++ x = String.utf8EncodeChar d ++ y) :
    c = d ∧ x = y := by
  have hdecode : ∀ (e : Char) (z : Bytes),
      ByteArray.utf8DecodeChar? (String.utf8EncodeChar e ++ z).toByteArray 0 = some e := by
    intro e z
    rw [List.toByteArray_append]
    exact ByteArray.utf8DecodeChar?_utf8EncodeChar_append
  obtain rfl : c = d := by
    have hc := hdecode c x
    rw [h, hdecode d y] at hc
    exact (Option.some.inj hc).symm
  exact ⟨rfl, List.append_cancel_left h⟩

/-- the characters that are not written as themselves -/
def escaped (c : Char) : Bool := c.toNat < 32 || c.toNat == 34 || c.toNat == 92

theorem writeChar_raw {c : Char} (h : escaped c = false) : writeChar c = String.utf8EncodeChar c := by
  simp only [escaped, Bool.or_eq_false_iff, decide_eq_false_iff_not, beq_eq_false_iff_ne, ne_eq] at h
  unfold writeChar
  split
  case h_8 => rw [if_neg h.1.1]
  all_goals omega

theorem escaped_codes_prefix_free : ∀ m < 93, ∀ n < 93, escaped (Char.ofNat m) = true → escaped (Char.ofNat n) = true →
    (writeChar (Char.ofNat m)).isPrefixOf (writeChar (Char.ofNat n)) = true → m = n := by
  decide +kernel

theorem escaped_head : ∀ n < 93, escaped (Char.ofNat n) = true → (writeChar (Char.ofNat n)).head? = some 92 := by
  decide +kernel

theorem escaped_lt {c : Char} (h : escaped c = true) : c.toNat < 93 := by
  simp only [escaped, Bool.or_eq_true, decide_eq_true_eq, beq_iff_eq] at h
  omega

theorem writeChar_escaped {c : Char} (h : escaped c = true) : ∃ code, writeChar c = 92 :: code := by
  have hhead := escaped_head c.toNat (escaped_lt h) (by rwa [Char.ofNat_toNat])
  rw [Char.ofNat_toNat] at hhead
  exact ⟨_, List.eq_cons_of_mem_head? hhead⟩

/-- a character written as itself begins neither like an escape nor like the closing quote -/
theorem writeChar_raw_ne {c d : Char} (hc : escaped c = false) (hd : escaped d = true) {b : UInt8}
    (hb : String.utf8EncodeChar d = [b]) {x y : Bytes} : writeChar c ++ x ≠ b :: y := by
  intro h
  rw [writeChar_raw hc] at h
  obtain ⟨rfl, -⟩ := utf8_prefix_free (d := d) (y := y) (h.trans (by rw [hb]; rfl))
  rw [hd] at hc
  cases hc

theorem writeChar_prefix_free {c d : Char} {x y : Bytes} (h : writeChar c ++ x = writeChar d ++ y) :
    c = d ∧ x = y := by
  suffices hcd : c = d by
    subst hcd
    exact ⟨rfl, List.append_cancel_left h⟩
  cases hc : escaped c with
  | false =>
    cases hd : escaped d with
    | false =>
      rw [writeChar_raw hc, writeChar_raw hd] at h
      exact (utf8_prefix_free h).1
    | true =>
      obtain ⟨code, he⟩ := writeChar_escaped hd
      rw [he] at h
      exact absurd h (writeChar_raw_ne (d := Char.ofNat 92) hc rfl rfl)
  | true =>
    cases hd : escaped d with
    | false =>
      obtain ⟨code, he⟩ := writeChar_escaped hc
      rw [he] at h
      exact absurd h.symm (writeChar_raw_ne (d := Char.ofNat 92) hd rfl rfl)
    | true =>
      have key := escaped_codes_prefix_free
      have hpre : writeChar c <+: writeChar d ∨ writeChar d <+: writeChar c :=
        List.prefix_or_prefix_of_prefix (List.prefix_append _ x) (h ▸ List.prefix_append _ y)
      have hof : ∀ {e : Char}, Char.ofNat e.toNat = e := fun {e} => Char.ofNat_toNat e
      apply Char.toNat_inj.1
      rcases hpre with hp | hp
      · exact key _ (escaped_lt hc) _ (escaped_lt hd) (by rwa [hof]) (by rwa [hof])
          (by rw [hof, hof]; exact List.isPrefixOf_iff_prefix.2 hp)
      · exact (key _ (escaped_lt hd) _ (escaped_lt hc) (by rwa [hof]) (by rwa [hof])
          (by rw [hof, hof]; exact List.isPrefixOf_iff_prefix.2 hp)).symm

/-- no character begins with the quote that ends a string -/
theorem writeChar_ne_quote (c : Char) (x y : Bytes) : writeChar c ++ x ≠ 34 :: y := by
  cases hc : escaped c with
  | false => exact writeChar_raw_ne (d := Char.ofNat 34) hc rfl rfl
  | true =>
    obtain ⟨code, he⟩ := writeChar_escaped hc
    rw [he]
    exact fun h => absurd (List.cons.inj h).1 (by decide)

theorem chars_prefix_free {cs ds : List Char} {x y : Bytes}
    (h : cs.flatMap writeChar ++ 34 :: x = ds.flatMap writeChar ++ 34 :: y) : cs = ds ∧ x = y := by
  induction cs generalizing ds with
  | nil =>
    cases ds with
    | nil => exact ⟨rfl, (List.cons.inj h).2⟩
    | cons d ds =>
      rw [List.flatMap_cons, List.append_assoc] at h
      exact absurd h.symm (writeChar_ne_quote d _ _)
  | cons c cs ih =>
    rw [List.flatMap_cons, List.append_assoc] at h
    cases ds with
    | nil => exact absurd h (writeChar_ne_quote c _ _)
    | cons d ds =>
      rw [List.flatMap_cons, List.append_assoc] at h
      obtain ⟨rfl, hrest⟩ := writeChar_prefix_free h
      obtain ⟨rfl, rfl⟩ := ih hrest
      exact ⟨rfl, rfl⟩

theorem writeString_prefix_free {s t : String} {x y : Bytes} (h : writeString s ++ x = writeString t ++ y) :
    s = t ∧ x = y := by
  simp only [writeString, enclosed, List.cons_append, List.append_assoc, List.cons.injEq, List.nil_append,
    true_and] at h
  obtain ⟨hst, rfl⟩ := chars_prefix_free h
  exact ⟨String.toList_inj.1 hst, rfl⟩

/-! ## Numbers -/

/-- what may follow a value: nothing, a comma, or a closing bracket -/
def Ends (rest : Bytes) : Prop := ∀ b ∈ rest.head?, b = 44 ∨ b = 93 ∨ b = 125

def isNumeral (b : UInt8) : Bool := b == 45 || (48 ≤ b && b ≤ 57)

theorem isNumeral_digit {c : Char} (h : c.isDigit = true) : isNumeral c.val.toUInt8 = true := by
  simp only [Char.isDigit, Bool.and_eq_true, decide_eq_true_eq, ge_iff_le, UInt32.le_iff_toNat_le] at h
  simp only [isNumeral, Bool.or_eq_true, Bool.and_eq_true, decide_eq_true_eq, UInt8.le_iff_toNat_le,
    UInt32.toNat_toUInt8]
  simp at h ⊢
  omega

theorem numerals_nat (n : ℕ) : ∀ b ∈ bytes (Nat.repr n), isNumeral b = true := by
  have hdigit : ∀ c ∈ Nat.toDigits 10 n, c.isDigit = true := fun c hc =>
    Nat.isDigit_of_mem_toDigits (by decide) (by decide) hc
  rw [Nat.repr, bytes_ascii fun c hc => alphanum_ascii (by simp [Char.isAlphanum, hdigit c hc])]
  intro b hb
  obtain ⟨c, hc, rfl⟩ := List.mem_map.1 hb
  exact isNumeral_digit (hdigit c hc)

theorem numerals (z : ℤ) : ∀ b ∈ bytes (toString z), isNumeral b = true := by
  cases z with
  | ofNat n => exact numerals_nat n
  | negSucc n =>
    show ∀ b ∈ bytes ("-" ++ Nat.repr (n + 1)), isNumeral b = true
    rw [bytes_append]
    intro b hb
    rcases List.mem_append.1 hb with hb | hb
    · obtain rfl := List.mem_singleton.1 hb
      rfl
    · exact numerals_nat _ b hb

theorem ends_not_numeral {rest : Bytes} (h : Ends rest) : ∀ b ∈ rest.head?, isNumeral b = false := by
  intro b hb
  rcases h b hb with rfl | rfl | rfl <;> rfl

/-- a number ends where its digits end -/
theorem takeWhile_numerals {a rest : Bytes} (ha : ∀ b ∈ a, isNumeral b = true)
    (hr : ∀ b ∈ rest.head?, isNumeral b = false) : (a ++ rest).takeWhile isNumeral = a := by
  rw [List.takeWhile_append_of_pos ha]
  cases rest with
  | nil => simp
  | cons b rest => simp [hr b rfl]

theorem number_prefix_free {z w : ℤ} {x y : Bytes} (hx : Ends x) (hy : Ends y)
    (h : bytes (toString z) ++ x = bytes (toString w) ++ y) : z = w ∧ x = y := by
  have htext : bytes (toString z) = bytes (toString w) := by
    rw [← takeWhile_numerals (numerals z) (ends_not_numeral hx), h,
      takeWhile_numerals (numerals w) (ends_not_numeral hy)]
  rw [htext] at h
  exact ⟨Int.repr_injective (bytes_inj.1 htext), List.append_cancel_left h⟩

/-! ## Sequences -/

/-- a text that does not begin like the end of something -/
def Starts (text : Bytes) : Prop := ∃ b rest, text = b :: rest ∧ b ≠ 44 ∧ b ≠ 93 ∧ b ≠ 125

theorem Starts.ne_close {text : Bytes} (h : Starts text) {x y : Bytes} {close : UInt8}
    (hc : close = 93 ∨ close = 125) : text ++ x ≠ close :: y := by
  obtain ⟨b, rest, rfl, -, h₁, h₂⟩ := h
  intro he
  obtain rfl : b = close := (List.cons.inj he).1
  exact hc.elim h₁ h₂

theorem ends_comma (x : Bytes) : Ends (44 :: x) := by
  intro b hb
  exact .inl (Option.some.inj hb).symm

theorem ends_close {close : UInt8} (hc : close = 93 ∨ close = 125) (x : Bytes) : Ends (close :: x) := by
  intro b hb
  obtain rfl := Option.some.inj hb
  exact .inr hc

theorem intercalate_comma (t : Bytes) (ts : List Bytes) :
    comma.intercalate (t :: ts) = t ++ (ts.flatMap fun u => 44 :: u) := by
  induction ts generalizing t with
  | nil => simp [List.intercalate]
  | cons u ts ih =>
    rw [List.intercalate_cons_cons, ih, List.flatMap_cons, List.append_assoc]
    rfl

section
variable {α : Type} {text : α → Bytes} {p : α → Prop}

/-- the text of `a` is told apart from that of any other `b`, whatever follows -/
def Separable (text : α → Bytes) (p : α → Prop) (a : α) : Prop :=
  ∀ {b x y}, p b → Ends x → Ends y → text a ++ x = text b ++ y → a = b ∧ x = y

theorem ends_tail {close : UInt8} (hc : close = 93 ∨ close = 125) (as : List α) (x : Bytes) :
    Ends ((as.flatMap fun a => 44 :: text a) ++ close :: x) := by
  cases as with
  | nil => exact ends_close hc x
  | cons a as => exact ends_comma _

theorem tail_prefix_free {as bs : List α} (ha : ∀ a ∈ as, Separable text p a) (hb : ∀ b ∈ bs, p b) {x y : Bytes}
    {close : UInt8} (hc : close = 93 ∨ close = 125)
    (h : (as.flatMap fun a => 44 :: text a) ++ close :: x = (bs.flatMap fun b => 44 :: text b) ++ close :: y) :
    as = bs ∧ x = y := by
  have hne : close ≠ 44 := by rcases hc with rfl | rfl <;> decide
  induction as generalizing bs with
  | nil =>
    cases bs with
    | nil => exact ⟨rfl, (List.cons.inj h).2⟩
    | cons b bs => exact absurd (List.cons.inj h).1 hne
  | cons a as ih =>
    cases bs with
    | nil => exact absurd (List.cons.inj h).1.symm hne
    | cons b bs =>
      rw [List.forall_mem_cons] at ha hb
      simp only [List.flatMap_cons, List.cons_append, List.append_assoc, List.cons.injEq, true_and] at h
      obtain ⟨rfl, hrest⟩ := ha.1 hb.1 (ends_tail hc as x) (ends_tail hc bs y) h
      obtain ⟨rfl, rfl⟩ := ih ha.2 hb.2 hrest
      exact ⟨rfl, rfl⟩

/-- a closed sequence determines its elements -/
theorem sequence_prefix_free {as bs : List α} (ha : ∀ a ∈ as, Separable text p a ∧ Starts (text a))
    (hb : ∀ b ∈ bs, p b ∧ Starts (text b)) {x y : Bytes} {close : UInt8} (hc : close = 93 ∨ close = 125)
    (h : comma.intercalate (as.map text) ++ close :: x = comma.intercalate (bs.map text) ++ close :: y) :
    as = bs ∧ x = y := by
  cases as with
  | nil =>
    cases bs with
    | nil => exact ⟨rfl, (List.cons.inj h).2⟩
    | cons b bs =>
      rw [List.map_cons, intercalate_comma, List.append_assoc] at h
      exact absurd h.symm ((hb b List.mem_cons_self).2.ne_close hc)
  | cons a as =>
    rw [List.map_cons, intercalate_comma, List.append_assoc, List.flatMap_map] at h
    cases bs with
    | nil => exact absurd h ((ha a List.mem_cons_self).2.ne_close hc)
    | cons b bs =>
      rw [List.map_cons, intercalate_comma, List.append_assoc, List.flatMap_map] at h
      rw [List.forall_mem_cons] at ha hb
      obtain ⟨rfl, hrest⟩ := ha.1.1 hb.1.1 (ends_tail hc as x) (ends_tail hc bs y) h
      obtain ⟨rfl, rfl⟩ := tail_prefix_free (fun a h => (ha.2 a h).1) (fun b h => (hb.2 b h).1) hc hrest
      exact ⟨rfl, rfl⟩

end

/-! ## Values -/

/-- no floating-point number anywhere in a value -/
inductive Integral : Value → Prop where
  | null : Integral .null
  | bool (value : Bool) : Integral (.bool value)
  | number (value : ℤ) : Integral (.number value)
  | string (value : String) : Integral (.string value)
  | array {values : List Value} (h : ∀ v ∈ values, Integral v) : Integral (.array values)
  | object {members : List (String × Value)} (h : ∀ m ∈ members, Integral m.2) : Integral (.object members)

def memberText (m : String × Value) : Bytes := writeString m.1 ++ 58 :: toVec m.2

theorem toVec_array (values : List Value) :
    toVec (.array values) = enclosed 91 93 (comma.intercalate (values.map toVec)) := by
  have h : toVecValues values = values.map toVec := by
    induction values with
    | nil => rfl
    | cons v vs ih => rw [toVecValues, ih, List.map_cons]
  rw [toVec, h]

theorem toVec_object (members : List (String × Value)) :
    toVec (.object members) = enclosed 123 125 (comma.intercalate (members.map memberText)) := by
  have h : toVecMembers members = members.map memberText := by
    induction members with
    | nil => rfl
    | cons m ms ih => rw [toVecMembers, ih, List.map_cons, memberText]
  rw [toVec, h]

/-- the first byte of a text tells what kind of value it is of -/
def kind (b : UInt8) : ℕ :=
  if b = 110 then 0 else if b = 116 ∨ b = 102 then 1 else if isNumeral b then 2 else if b = 34 then 3
  else if b = 91 then 4 else 5

def Value.kind : Value → ℕ
  | .null => 0
  | .bool _ => 1
  | .number _ | .float _ => 2
  | .string _ => 3
  | .array _ => 4
  | .object _ => 5

theorem number_starts (z : ℤ) : ∃ b rest, bytes (toString z) = b :: rest ∧ isNumeral b = true := by
  have hne : toString z ≠ "" := by
    cases z with
    | ofNat n => exact Nat.repr_ne_empty
    | negSucc n =>
      intro h
      have hlen := congrArg String.length h
      rw [show toString (Int.negSucc n) = "-" ++ Nat.repr (n + 1) from rfl, String.length_append] at hlen
      have h₁ : "-".length = 1 := rfl
      have h₀ : "".length = 0 := rfl
      omega
  have hnumerals := numerals z
  cases hb : bytes (toString z) with
  | nil => exact absurd (bytes_inj.1 (hb.trans rfl)) hne
  | cons b rest =>
    rw [hb] at hnumerals
    exact ⟨b, rest, rfl, hnumerals b List.mem_cons_self⟩

theorem Integral.starts_with {v : Value} (h : Integral v) : ∃ b rest, toVec v = b :: rest ∧ kind b = v.kind ∧
    b ≠ 44 ∧ b ≠ 93 ∧ b ≠ 125 := by
  cases h with
  | null => exact ⟨110, _, rfl, by decide⟩
  | bool value =>
    cases value
    · exact ⟨102, _, rfl, by decide⟩
    · exact ⟨116, _, rfl, by decide⟩
  | number value =>
    obtain ⟨b, rest, hb, hn⟩ := number_starts value
    have hkind : ∀ b : UInt8, isNumeral b = true → kind b = 2 ∧ b ≠ 44 ∧ b ≠ 93 ∧ b ≠ 125 := by decide +kernel
    exact ⟨b, rest, hb, hkind b hn⟩
  | string value => exact ⟨34, _, rfl, rfl, by decide⟩
  | array => exact ⟨91, _, rfl, rfl, by decide⟩
  | object => exact ⟨123, _, rfl, rfl, by decide⟩

theorem Integral.starts {v : Value} (h : Integral v) : Starts (toVec v) := by
  obtain ⟨b, rest, hb, -, hne⟩ := h.starts_with
  exact ⟨b, rest, hb, hne⟩

/-- values with texts that agree from the start are of one kind -/
theorem Integral.kind_eq {v w : Value} (hv : Integral v) (hw : Integral w) {x y : Bytes}
    (h : toVec v ++ x = toVec w ++ y) : v.kind = w.kind := by
  obtain ⟨b, rest, hb, hkb, -⟩ := hv.starts_with
  obtain ⟨c, rest', hc, hkc, -⟩ := hw.starts_with
  rw [hb, hc] at h
  rw [← hkb, ← hkc, (List.cons.inj h).1]

theorem enclosed_append (left right : UInt8) (text rest : Bytes) :
    enclosed left right text ++ rest = left :: (text ++ right :: rest) := by
  simp [enclosed]

theorem member_starts (m : String × Value) : Starts (memberText m) := ⟨34, _, rfl, by decide⟩

/-- **No text is the beginning of another**, where something that ends a value follows. -/
theorem toVec_prefix_free {v : Value} (hv : Integral v) : Separable toVec Integral v := by
  induction hv with
  | null =>
    intro w x y hw hx hy h
    have hk := Integral.kind_eq .null hw h
    cases hw <;> first | exact ⟨rfl, List.append_cancel_left h⟩ | cases hk
  | bool value =>
    intro w x y hw hx hy h
    have hk := Integral.kind_eq (.bool value) hw h
    cases hw with
    | bool value' =>
      cases value <;> cases value'
      · exact ⟨rfl, List.append_cancel_left h⟩
      · exact absurd (List.cons.inj h).1 (by decide)
      · exact absurd (List.cons.inj h).1 (by decide)
      · exact ⟨rfl, List.append_cancel_left h⟩
    | _ => cases hk
  | number value =>
    intro w x y hw hx hy h
    have hk := Integral.kind_eq (.number value) hw h
    cases hw with
    | number value' =>
      obtain ⟨rfl, hxy⟩ := number_prefix_free hx hy h
      exact ⟨rfl, hxy⟩
    | _ => cases hk
  | string value =>
    intro w x y hw hx hy h
    have hk := Integral.kind_eq (.string value) hw h
    cases hw with
    | string value' =>
      obtain ⟨rfl, hxy⟩ := writeString_prefix_free h
      exact ⟨rfl, hxy⟩
    | _ => cases hk
  | @array values hvalues ih =>
    intro w x y hw hx hy h
    have hk := Integral.kind_eq (.array hvalues) hw h
    cases hw with
    | @array values' hvalues' =>
      rw [toVec_array, toVec_array, enclosed_append, enclosed_append] at h
      obtain ⟨rfl, hxy⟩ := sequence_prefix_free (fun v hm => ⟨ih v hm, (hvalues v hm).starts⟩)
        (fun v hm => ⟨hvalues' v hm, (hvalues' v hm).starts⟩) (.inl rfl) (List.cons.inj h).2
      exact ⟨rfl, hxy⟩
    | _ => cases hk
  | @object members hmembers ih =>
    intro w x y hw hx hy h
    have hk := Integral.kind_eq (.object hmembers) hw h
    cases hw with
    | @object members' hmembers' =>
      have hmember : ∀ m ∈ members, Separable memberText (fun m => Integral m.2) m := by
        intro m hm n x y hn hx hy h
        rw [memberText, memberText, List.append_assoc, List.append_assoc] at h
        obtain ⟨hkey, hrest⟩ := writeString_prefix_free h
        obtain ⟨hvalue, hxy⟩ := ih m hm hn hx hy (List.cons.inj hrest).2
        exact ⟨Prod.ext hkey hvalue, hxy⟩
      rw [toVec_object, toVec_object, enclosed_append, enclosed_append] at h
      obtain ⟨rfl, hxy⟩ := sequence_prefix_free (fun m hm => ⟨hmember m hm, member_starts m⟩)
        (fun m hm => ⟨hmembers' m hm, member_starts m⟩) (.inr rfl) (List.cons.inj h).2
      exact ⟨rfl, hxy⟩
    | _ => cases hk

/-- **Compact text determines the value** it was written from. -/
theorem toVec_injective {v w : Value} (hv : Integral v) (hw : Integral w) (h : toVec v = toVec w) : v = w := by
  have hnil : Ends [] := fun b hb => nomatch hb
  exact (toVec_prefix_free hv hw hnil hnil (by rw [h])).1

/-! ## What codecs write -/

theorem mem_of_mem_ofList {V : Type} {l : List (String × V)} {e : String × V}
    (h : e ∈ (Std.ExtTreeMap.ofList l compare).toList) : e ∈ l := by
  have he := mem_toList.1 h
  rw [Std.ExtTreeMap.ofList_eq_insertMany_empty, Std.ExtTreeMap.getElem?_insertMany_list,
    Std.ExtTreeMap.getElem?_empty, Option.or_none, List.findSomeRev?_eq_findSome?_reverse] at he
  obtain ⟨⟨k, v⟩, hm, hv⟩ := List.exists_of_findSome?_eq_some he
  dsimp only at hv
  split_ifs at hv with hk
  obtain rfl := Std.LawfulEqOrd.eq_of_compare hk
  rw [List.mem_reverse] at hm
  rwa [Option.some.inj hv] at hm

theorem integral_canonicalize {v : Value} (h : Integral v) : Integral (canonicalize v) := by
  induction h with
  | array _ ih =>
    rw [canonicalize, canonicalizeValues_eq]
    apply Integral.array
    intro v hv
    obtain ⟨w, hw, rfl⟩ := List.mem_map.1 hv
    exact ih w hw
  | object _ ih =>
    rw [canonicalize, canonicalizeMembers_eq]
    apply Integral.object
    intro m hm
    obtain ⟨n, hn, rfl⟩ := List.mem_map.1 (mem_of_mem_ofList hm)
    exact ih n hn
  | null => exact .null
  | bool => exact .bool _
  | number => exact .number _
  | string => exact .string _

variable {σ α β : Type}

/-- a codec that writes no floating-point number -/
def Codec.Integral (c : Codec α) : Prop := ∀ a, Core.Json.Integral (c.encode a)

/-- members that hold no floating-point number -/
def Fields.Integral (x : Fields σ α) : Prop := ∀ s, ∀ m ∈ x.write s, Core.Json.Integral m.2

namespace Codec

theorem integral_bool : bool.Integral := fun _ => .bool _

theorem integral_string : string.Integral := fun _ => .string _

theorem integral_integer {lo hi : ℤ} {value : α → ℤ} {wrap : ℤ → α}
    {h : ∀ a, lo ≤ value a ∧ value a ≤ hi ∧ wrap (value a) = a} : (integer lo hi value wrap h).Integral :=
  fun _ => .number _

theorem integral_option {c : Codec α} {h : ∀ a, c.encode a ≠ .null} (hc : c.Integral) : (option c h).Integral := by
  intro a
  cases a with
  | none => exact .null
  | some a => exact hc a

theorem integral_vec {c : Codec α} (hc : c.Integral) : (vec c).Integral := by
  intro l
  apply Core.Json.Integral.array
  intro v hv
  obtain ⟨a, -, rfl⟩ := List.mem_map.1 hv
  exact hc a

theorem integral_btreeMap {c : Codec α} (hc : c.Integral) : (btreeMap c).Integral := by
  intro m
  apply Core.Json.Integral.object
  intro e he
  obtain ⟨e', -, rfl⟩ := List.mem_map.1 he
  exact hc e'.2

theorem integral_btreeSet : btreeSet.Integral := fun s => integral_vec integral_string s.toList

theorem integral_variants {name : α → String} {all : List α}
    {h : ∀ a, all.find? (fun b => name b == name a) = some a} : (variants name all h).Integral := fun _ => .string _

end Codec

theorem Fields.integral_field {name : String} {c : Codec α} {get : σ → α} {missing missingSeq : Option α}
    {skip : α → Bool} {hskip : ∀ a, skip a = true → missing = some a} (hc : c.Integral) :
    (field name c get missing missingSeq skip hskip).Integral := by
  intro s m hm
  simp only [field] at hm
  split_ifs at hm
  · cases hm
  · obtain rfl := List.mem_singleton.1 hm
    exact hc (get s)

theorem Fields.integral_and {x : Fields σ α} {y : Fields σ β} (hx : x.Integral) (hy : y.Integral) :
    (x.and y).Integral := by
  intro s m hm
  rcases List.mem_append.1 hm with hm | hm
  · exact hx s m hm
  · exact hy s m hm

theorem Codec.integral_record {fields : Fields σ α} {build : α → σ} {hbuild : ∀ s, build (fields.get s) = s}
    {hnames : fields.names.Nodup} (h : fields.Integral) : (record fields build hbuild hnames).Integral :=
  fun s => .object (h s)

/-- two values that a codec writes as the same canonical text are the same -/
theorem Codec.canonical_text_inj {c : Codec α} (hc : c.Integral) {write : Value → Bytes}
    (hwrite : ∀ {v w}, Core.Json.Integral v → Core.Json.Integral w → write v = write w → v = w) {a b : α}
    (h : write (canonicalize (c.encode a)) = write (canonicalize (c.encode b))) : a = b := by
  have hvalue := hwrite (integral_canonicalize (hc a)) (integral_canonicalize (hc b)) h
  have hb := c.decode_canonicalize b
  rw [← hvalue, c.decode_canonicalize] at hb
  exact Option.some.inj hb

end Core.Json
