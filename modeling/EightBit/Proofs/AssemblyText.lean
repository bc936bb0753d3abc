/-
# EightBit.Proofs.AssemblyText -- an assembly text stands for one sequence of bytes

Everything that a disassembler can find is written in one space of texts: 34 instructions with operands in
decimal, bytes that name no instruction, operands and addresses that the bytes do not reach. Nothing of what
it finds shares its text with anything else, and `Disassembled.text_injective` is the proof. The first word
of a text is the mnemonic, or three question marks; after it the commas divide the operands, since none of
them has a comma in it; and a question mark is no digit.

What is found at an address is decided by as many bytes as it takes up, and decides them in turn. Two texts
are therefore the same exactly if these bytes are, those included that are missing.
-/
import EightBit.Proofs.Disassembly
import EightBit.Proofs.Numerals

namespace EightBit

namespace Text

theorem isDigit_of_mem_decimal {n : Nat} {c : Char} (h : c ∈ (toString n).toList) :
    c.isDigit = true := by
  have hdigit : c ∈ Nat.toDigits 10 n := by simpa [toString] using h
  exact Nat.isDigit_of_mem_toDigits (by decide) le_rfl hdigit

theorem address_injective : Function.Injective address := by
  intro m n h
  have hdigits : digits 16 2 m = digits 16 2 n :=
    String.ofList_injective ((String.append_right_inj "0x").mp h)
  have hhex : hex m = hex n := by rw [hex, hdigits, hex]
  rw [← hexValue_hex m, hhex, hexValue_hex]

/-- Words that have no comma in them can be told apart after they are joined by commas. -/
theorem commas_injective {words words' : List String} (hne : words ≠ []) (hne' : words' ≠ [])
    (hword : ∀ w ∈ words, ',' ∉ w.toList) (hword' : ∀ w ∈ words', ',' ∉ w.toList)
    (h : ",".intercalate words = ",".intercalate words') : words = words' := by
  have hsplit : ∀ ws : List String, ws ≠ [] → (∀ w ∈ ws, ',' ∉ w.toList) →
      (",".intercalate ws).toList.splitOn ',' = ws.map String.toList := by
    intro ws hws hcomma
    rw [String.toList_intercalate]
    exact List.splitOn_intercalate ',' (by simpa using hcomma) (by simpa using hws)
  have hlists : words.map String.toList = words'.map String.toList := by
    rw [← hsplit words hne hword, h, hsplit words' hne' hword']
  exact List.map_injective_iff.mpr (fun _ _ => String.toList_inj.mp) hlists

end Text

/-! ## Operands -/

namespace OperandKind

/-- A character of an operand is a digit, or the mark of a register, or that of a missing operand. -/
theorem mem_text {kind : OperandKind} {operand : Option UInt8} {c : Char}
    (h : c ∈ (kind.text operand).toList) : c.isDigit = true ∨ c = 'R' ∨ c = '?' := by
  have hvalue : ∀ c ∈ (immediate.text operand).toList, c.isDigit = true ∨ c = 'R' ∨ c = '?' := by
    intro c hc
    cases operand with
    | none => exact .inr (.inr (List.mem_singleton.mp hc))
    | some byte => exact .inl (Text.isDigit_of_mem_decimal hc)
  cases kind with
  | immediate => exact hvalue c h
  | register =>
    have hcons : c = 'R' ∨ c ∈ (immediate.text operand).toList := by
      simpa [text, String.toList_append] using h
    exact hcons.elim (fun hc => .inr (.inl hc)) (hvalue c)

theorem comma_notMem_text (kind : OperandKind) (operand : Option UInt8) :
    ',' ∉ (kind.text operand).toList := by
  intro h
  rcases mem_text h with hc | hc | hc <;> exact absurd hc (by decide)

/-- Operands of one kind are told apart by their texts, one that is missing from all others. -/
theorem text_injective (kind : OperandKind) : Function.Injective kind.text := by
  intro o o' h
  have hmissing : ∀ byte, immediate.text none ≠ immediate.text (some byte) := by
    intro byte hmark
    have hc : '?' ∈ (immediate.text (some byte)).toList := hmark ▸ List.mem_singleton_self '?'
    exact absurd (Text.isDigit_of_mem_decimal hc) (by decide)
  have hvalue : immediate.text o = immediate.text o' := by
    cases kind with
    | immediate => exact h
    | register => exact (String.append_right_inj "R").mp h
  cases o with
  | none =>
    cases o' with
    | none => rfl
    | some byte => exact absurd hvalue (hmissing byte)
  | some byte =>
    cases o' with
    | none => exact absurd hvalue.symm (hmissing byte)
    | some byte' => exact congrArg some (UInt8.toNat_inj.mp (Nat.repr_inj.mp hvalue))

theorem zipWith_text_injective {kinds : List OperandKind} {xs ys : List (Option UInt8)}
    (hx : xs.length = kinds.length) (hy : ys.length = kinds.length)
    (h : List.zipWith text kinds xs = List.zipWith text kinds ys) : xs = ys := by
  induction kinds generalizing xs ys with
  | nil => rw [List.length_eq_zero_iff.mp hx, List.length_eq_zero_iff.mp hy]
  | cons kind kinds ih =>
    obtain ⟨x, xs, rfl⟩ := List.exists_cons_of_length_eq_add_one hx
    obtain ⟨y, ys, rfl⟩ := List.exists_cons_of_length_eq_add_one hy
    obtain ⟨hhead, htail⟩ := List.cons.inj h
    rw [kind.text_injective hhead, ih (Nat.succ.inj hx) (Nat.succ.inj hy) htail]

end OperandKind

/-! ## What is found -/

namespace Opcode

theorem length_operandKinds (op : Opcode) : op.operandKinds.length = op.arity := by
  cases op <;> rfl

theorem mnemonic_injective : Function.Injective mnemonic := by
  have hall : (all.map mnemonic).Nodup := by decide +kernel
  exact fun op op' => List.inj_on_of_nodup_map hall op.mem_all op'.mem_all

end Opcode

namespace Disassembled

/-- An instruction comes with as many operands as it has, whether or not the bytes reach them. -/
def Formed : Disassembled → Prop
  | .instruction op operands => operands.length = op.arity
  | _ => True

theorem formed_ofBytes (bytes : List UInt8) : (ofBytes bytes).Formed := by
  unfold ofBytes
  split
  · trivial
  · split
    · trivial
    · simp [Formed]

/-- The operands of an instruction can be read off its text. -/
theorem operands_injective {op : Opcode} {xs ys : List (Option UInt8)} (hx : xs.length = op.arity)
    (hy : ys.length = op.arity) (h : (instruction op xs).text = (instruction op ys).text) :
    xs = ys := by
  have hcomma : ∀ zs, ∀ w ∈ List.zipWith OperandKind.text op.operandKinds zs, ',' ∉ w.toList := by
    intro zs w hw
    rw [← List.map_uncurry_zip_eq_zipWith] at hw
    obtain ⟨⟨kind, operand⟩, -, rfl⟩ := List.mem_map.mp hw
    exact kind.comma_notMem_text operand
  have hkinds := op.length_operandKinds
  refine OperandKind.zipWith_text_injective (hx.trans hkinds.symm) (hy.trans hkinds.symm) ?_
  have hlength : (List.zipWith OperandKind.text op.operandKinds xs).length
      = (List.zipWith OperandKind.text op.operandKinds ys).length := by
    simp [hx, hy]
  have hcx := hcomma xs
  have hcy := hcomma ys
  simp only [text] at h
  generalize List.zipWith OperandKind.text op.operandKinds xs = shown at h hlength hcx ⊢
  generalize List.zipWith OperandKind.text op.operandKinds ys = shown' at h hlength hcy ⊢
  cases shown with
  | nil => exact (List.length_eq_zero_iff.mp hlength.symm).symm
  | cons w ws =>
    obtain ⟨w', ws', rfl⟩ := List.exists_cons_of_length_eq_add_one hlength.symm
    exact Text.commas_injective (List.cons_ne_nil _ _) (List.cons_ne_nil _ _) hcx hcy
      ((String.append_right_inj _).mp h)

theorem text_beyond_ne_unnamed (byte : UInt8) : beyond.text ≠ (unnamed byte).text := by
  intro h
  have hrest : "" = " ; " ++ Text.address byte.toNat := (String.append_right_inj "???").mp h
  simp at hrest

/-- **No two findings share a text.** -/
theorem text_injective {d d' : Disassembled} (hd : d.Formed) (hd' : d'.Formed)
    (h : d.text = d'.text) : d = d' := by
  cases d with
  | beyond =>
    cases d' with
    | beyond => rfl
    | unnamed byte => exact absurd h (text_beyond_ne_unnamed byte)
    | instruction op xs => exact absurd (h ▸ unknown_beyond) (not_unknown_instruction op xs)
  | unnamed byte =>
    cases d' with
    | beyond => exact absurd h.symm (text_beyond_ne_unnamed byte)
    | unnamed byte' =>
      have haddress := Text.address_injective ((String.append_right_inj "??? ; ").mp h)
      rw [UInt8.toNat_inj.mp haddress]
    | instruction op xs => exact absurd (h ▸ unknown_unnamed byte) (not_unknown_instruction op xs)
  | instruction op xs =>
    cases d' with
    | beyond => exact absurd (h ▸ unknown_beyond) (not_unknown_instruction op xs)
    | unnamed byte => exact absurd (h ▸ unknown_unnamed byte) (not_unknown_instruction op xs)
    | instruction op' ys =>
      have hword : op.mnemonic.toList = op'.mnemonic.toList := by
        rw [← firstWord_text op xs, h, firstWord_text]
      obtain rfl := Opcode.mnemonic_injective (String.toList_inj.mp hword)
      rw [operands_injective hd hd' h]

end Disassembled

/-! ## The bytes that decide -/

namespace Disassembled

/-- The byte that tells what is found. -/
def code? : Disassembled → Option UInt8
  | .beyond => none
  | .unnamed byte => some byte
  | .instruction op _ => some op.byte

theorem ofBytes_of_unnamed {byte : UInt8} (h : Opcode.ofByte? byte = none) (rest : List UInt8) :
    ofBytes (byte :: rest) = .unnamed byte := by
  simp only [ofBytes, h]

theorem ofBytes_of_named {byte : UInt8} {op : Opcode} (h : Opcode.ofByte? byte = some op)
    (rest : List UInt8) :
    ofBytes (byte :: rest) = .instruction op ((List.range op.arity).map fun i => rest[i]?) := by
  simp only [ofBytes, h]

theorem code?_ofBytes (bytes : List UInt8) : (ofBytes bytes).code? = bytes.head? := by
  cases bytes with
  | nil => rfl
  | cons byte rest =>
    cases h : Opcode.ofByte? byte with
    | none => rw [ofBytes_of_unnamed h, code?, List.head?_cons]
    | some op => rw [ofBytes_of_named h, code?, Opcode.byte_of_ofByte? h, List.head?_cons]

/-- After the byte that tells what is found, the operands decide. -/
theorem ofBytes_cons_eq_iff (byte : UInt8) (xs ys : List UInt8) :
    ofBytes (byte :: xs) = ofBytes (byte :: ys)
      ↔ ∀ k < (ofBytes (byte :: xs)).length, (byte :: xs)[k]? = (byte :: ys)[k]? := by
  cases h : Opcode.ofByte? byte with
  | none =>
    rw [ofBytes_of_unnamed h, ofBytes_of_unnamed h]
    refine iff_of_true rfl fun k hk => ?_
    obtain rfl : k = 0 := Nat.lt_one_iff.mp hk
    rfl
  | some op =>
    rw [ofBytes_of_named h, ofBytes_of_named h]
    simp only [instruction.injEq, true_and, List.map_inj_left, List.mem_range]
    constructor
    · intro hoperands k hk
      cases k with
      | zero => rfl
      | succ i => exact hoperands i (Nat.lt_of_add_lt_add_left (Nat.add_comm i 1 ▸ hk))
    · intro hbytes i hi
      exact hbytes (i + 1) (Nat.add_comm i 1 ▸ Nat.add_lt_add_left hi 1)

/-- **What is found is decided by the bytes that it takes up, and decides them.** Bytes that are not
there are among them. -/
theorem ofBytes_eq_iff {xs ys : List UInt8} :
    ofBytes xs = ofBytes ys ↔ ∀ k < (ofBytes xs).length, xs[k]? = ys[k]? := by
  by_cases hhead : xs.head? = ys.head?
  · cases xs with
    | nil => rw [List.head?_eq_none_iff.mp hhead.symm]; simp
    | cons byte xs =>
      obtain ⟨ys, rfl⟩ := List.head?_eq_some_iff.mp hhead.symm
      exact ofBytes_cons_eq_iff byte xs ys
  · refine iff_of_false (fun h => hhead ?_) fun h => hhead ?_
    · rw [← code?_ofBytes, h, code?_ofBytes]
    · simpa only [List.head?_eq_getElem?] using h 0 (length_pos _)

end Disassembled

/-- **Texts and bytes.** Two texts are the same exactly if as many bytes are as the first of them takes up. -/
theorem text_disassembleAt_eq_iff {x y : List UInt8} {i j : Nat} :
    (disassembleAt x i).text = (disassembleAt y j).text
      ↔ ∀ k < (disassembleAt x i).length, x[i + k]? = y[j + k]? := by
  have hbytes : Disassembled.ofBytes (x.drop i) = .ofBytes (y.drop j) ↔ _ :=
    Disassembled.ofBytes_eq_iff
  simp only [List.getElem?_drop] at hbytes
  rw [disassembleAt, disassembleAt, ← hbytes]
  constructor
  · exact Disassembled.text_injective (Disassembled.formed_ofBytes _) (Disassembled.formed_ofBytes _)
  · exact congrArg Disassembled.text

/-- What stands at an address is whole: the bytes reach its last one. -/
def Whole (bytes : List UInt8) (address : Nat) : Prop :=
  address + (disassembleAt bytes address).length ≤ bytes.length

instance (bytes : List UInt8) (address : Nat) : Decidable (Whole bytes address) :=
  inferInstanceAs (Decidable (_ ≤ _))

/-- Where the bytes do not reach an address nothing is whole. -/
theorem not_whole_of_le {bytes : List UInt8} {address : Nat} (h : bytes.length ≤ address) :
    ¬ Whole bytes address := by
  have hpos := (disassembleAt bytes address).length_pos
  rw [Whole]
  omega

section Unambiguous

variable {x y : List UInt8} {i j : Nat}

theorem length_eq_of_text_eq (h : (disassembleAt x i).text = (disassembleAt y j).text) :
    (disassembleAt x i).length = (disassembleAt y j).length :=
  congrArg Disassembled.length (Disassembled.text_injective (Disassembled.formed_ofBytes _)
    (Disassembled.formed_ofBytes _) h)

theorem take_eq_of_text_eq (h : (disassembleAt x i).text = (disassembleAt y j).text) :
    (x.drop i).take (disassembleAt x i).length = (y.drop j).take (disassembleAt y j).length := by
  rw [← length_eq_of_text_eq h]
  refine List.ext_getElem? fun k => ?_
  by_cases hk : k < (disassembleAt x i).length
  · rw [List.getElem?_take_of_lt hk, List.getElem?_take_of_lt hk, List.getElem?_drop,
      List.getElem?_drop]
    exact text_disassembleAt_eq_iff.mp h k hk
  · rw [List.getElem?_take_eq_none (Nat.le_of_not_lt hk),
      List.getElem?_take_eq_none (Nat.le_of_not_lt hk)]

theorem whole_of_text_eq (hx : Whole x i)
    (h : (disassembleAt x i).text = (disassembleAt y j).text) : Whole y j := by
  -- the last byte is there at the one address, so it is at the other
  have hpos := (disassembleAt x i).length_pos
  have hlength := length_eq_of_text_eq h
  have hlast := text_disassembleAt_eq_iff.mp h ((disassembleAt x i).length - 1) (by omega)
  rw [Whole] at hx ⊢
  rw [List.getElem?_eq_getElem (by omega)] at hlast
  have hthere := (List.getElem?_eq_some_iff.mp hlast.symm).1
  omega

end Unambiguous

/-- **Assembly text is unambiguous.** Whole instructions, and bytes that name none, that have the same text
have the same length and the same bytes. Their text is never that of an instruction whose operands run past
the end of the bytes, nor that of an address past the end. -/
theorem disassembly_unambiguous (x y : List UInt8) (i j : Nat) (hx : Whole x i) :
    (Whole y j → (disassembleAt x i).text = (disassembleAt y j).text →
      (disassembleAt x i).length = (disassembleAt y j).length
      ∧ (x.drop i).take (disassembleAt x i).length = (y.drop j).take (disassembleAt y j).length)
    ∧ (j < y.length → y.length < j + (disassembleAt y j).length →
      (disassembleAt x i).text ≠ (disassembleAt y j).text)
    ∧ (y.length ≤ j → (disassembleAt x i).text ≠ (disassembleAt y j).text) := by
  refine ⟨?same, ?cut, ?past⟩
  case same => exact fun _ h => ⟨length_eq_of_text_eq h, take_eq_of_text_eq h⟩
  case cut => exact fun _ hcut h => absurd (whole_of_text_eq hx h) (Nat.not_le_of_lt hcut)
  case past => exact fun hpast h => absurd (whole_of_text_eq hx h) (not_whole_of_le hpast)

theorem disassembly_unambiguous_load :
    let x : List UInt8 := [0, Opcode.ldi.byte, 1, 12]
    let y : List UInt8 := [Opcode.ldi.byte, 1, 12, Opcode.ldi.byte, 1]
    Whole x 1 ∧ Whole y 0
      ∧ (x.drop 1).take (disassembleAt x 1).length = (y.drop 0).take (disassembleAt y 0).length
      ∧ (disassembleAt x 1).text ≠ (disassembleAt y 3).text
      ∧ (disassembleAt x 1).text ≠ (disassembleAt y 5).text := by
  intro x y
  have hx : Whole x 1 := by decide
  have hy : Whole y 0 := by decide
  obtain ⟨hsame, -, -⟩ := disassembly_unambiguous x y 1 0 hx
  obtain ⟨-, hcut, -⟩ := disassembly_unambiguous x y 1 3 hx
  obtain ⟨-, -, hpast⟩ := disassembly_unambiguous x y 1 5 hx
  exact ⟨hx, hy, (hsame hy rfl).2, hcut (by decide) (by decide), hpast (by decide)⟩

end EightBit
