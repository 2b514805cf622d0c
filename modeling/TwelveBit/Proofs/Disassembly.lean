import TwelveBit.Command.Journal
import Mathlib.Data.List.Nodup
/-!
Disassembly. The text of an instruction is a mnemonic without blanks, and behind a blank the operand,
if there is one. No two kinds of instructions have the same mnemonic, and digits read back however
wide their field is, so the text says which instruction it is. So does a line of the journal, which
has the text between the program counter and the pointers.
-/
namespace TwelveBit

/-- Where the first `c` comes tells what is in front of it and what is behind. -/
theorem split_unique {c : Char} {xs ys us vs : List Char} (hx : c ∉ xs) (hy : c ∉ ys)
    (h : xs ++ c :: us = ys ++ c :: vs) : xs = ys ∧ us = vs := by
  induction xs generalizing ys with
  | nil =>
    cases ys with
    | nil => exact ⟨rfl, (List.cons.inj h).2⟩
    | cons y ys => exact absurd ((List.cons.inj h).1 ▸ List.mem_cons_self) hy
  | cons x xs ih =>
    cases ys with
    | nil => exact absurd ((List.cons.inj h).1 ▸ List.mem_cons_self) hx
    | cons y ys =>
      obtain ⟨rfl, rest⟩ := List.cons.inj h
      obtain ⟨rfl, behind⟩ := ih (fun hc => hx (List.mem_cons_of_mem _ hc))
        (fun hc => hy (List.mem_cons_of_mem _ hc)) rest
      exact ⟨rfl, behind⟩

namespace Hex

theorem padded_inj {w w' m n : Nat} (h : padded w m = padded w' n) : m = n := by
  have hm := valueFrom?_padded w m
  rw [h, valueFrom?_padded] at hm
  exact (Option.some.inj hm).symm

theorem literal_inj {w w' m n : Nat} (h : literal w m = literal w' n) : m = n := by
  have hd := String.ofList_injective h
  exact padded_inj (List.cons.inj (List.cons.inj hd).2).2

theorem isSome_digitValue?_of_valueFrom? {n v : Nat} {cs : List Char}
    (h : valueFrom? n cs = some v) : ∀ c ∈ cs, (digitValue? c).isSome := by
  induction cs generalizing n with
  | nil => intro c hc; cases hc
  | cons d cs ih =>
    rw [valueFrom?] at h
    cases hd : digitValue? d with
    | none => simp only [hd, reduceCtorEq] at h
    | some k =>
      simp only [hd] at h
      intro c hc
      cases hc with
      | head => rw [hd]; rfl
      | tail _ hc => exact ih h c hc

/-- What is no digit does not occur. -/
theorem not_mem_padded {c : Char} (hc : digitValue? c = none) (w n : Nat) : c ∉ padded w n := by
  intro h
  have hd := isSome_digitValue?_of_valueFrom? (valueFrom?_padded w n) c h
  rw [hc] at hd
  cases hd

end Hex

namespace Instruction

def blank : Instruction → Instruction
  | word op _ => word op 0
  | long op _ => long op 0
  | jump (.absolute c _) => jump (.absolute c 0)
  | i => i

def field? : Instruction → Option (Nat × Nat)
  | word _ k => some (3, k)
  | long _ v => some (6, v)
  | jump (.absolute _ a) => some (6, a)
  | _ => none

def fieldText : Option (Nat × Nat) → String
  | none => ""
  | some (width, v) => " " ++ Hex.literal width v

def blanks : Opcode → List Instruction
  | .system op => [system op]
  | .plain op => [plain op]
  | .word op => [word op 0]
  | .long op => [long op 0]
  | .jump => JumpMode.all.map fun
    | .when c => jump (.absolute c 0)
    | .relative => jump .relative

def allBlank : List Instruction := Opcode.all.flatMap blanks

theorem blank_mem_allBlank (i : Instruction) : i.blank ∈ allBlank := by
  refine List.mem_flatMap.2 ⟨i.opcode, Opcode.mem_all _, ?_⟩
  cases i with
  | system | plain | word | long => exact List.mem_singleton_self _
  | jump j =>
    cases j with
    | absolute c a => exact List.mem_map.2 ⟨.when c, JumpMode.mem_all _, rfl⟩
    | relative => exact List.mem_map.2 ⟨.relative, JumpMode.mem_all _, rfl⟩

theorem mnemonic_blank (i : Instruction) : i.blank.mnemonic = i.mnemonic := by
  cases i with
  | system | plain | word | long => rfl
  | jump j => cases j <;> rfl

theorem mnemonics_differ : (allBlank.map mnemonic).Nodup := by decide +kernel

theorem mnemonics_plain : ∀ i ∈ allBlank, ' ' ∉ i.mnemonic.toList ∧ '=' ∉ i.mnemonic.toList := by
  decide +kernel

theorem blank_eq_of_mnemonic {i j : Instruction} (h : i.mnemonic = j.mnemonic) :
    i.blank = j.blank := by
  rw [← mnemonic_blank i, ← mnemonic_blank j] at h
  exact List.inj_on_of_nodup_map mnemonics_differ (blank_mem_allBlank i) (blank_mem_allBlank j) h

theorem mnemonic_plain (i : Instruction) : ' ' ∉ i.mnemonic.toList ∧ '=' ∉ i.mnemonic.toList :=
  mnemonic_blank i ▸ mnemonics_plain i.blank (blank_mem_allBlank i)

theorem eq_of_blank_of_field {i j : Instruction} (hb : i.blank = j.blank)
    (hf : i.field?.map Prod.snd = j.field?.map Prod.snd) : i = j := by
  rcases i with op | op | ⟨op, k⟩ | ⟨op, v⟩ | ⟨c, a⟩ | _ <;>
    rcases j with op' | op' | ⟨op', k'⟩ | ⟨op', v'⟩ | ⟨c', a'⟩ | _ <;>
    simp_all [blank, field?]

theorem text_eq (i : Instruction) : i.text = i.mnemonic ++ fieldText i.field? := by
  cases i with
  | system | plain => exact String.append_empty.symm
  | word | long => exact String.append_assoc ..
  | jump j =>
    cases j with
    | absolute => exact String.append_assoc ..
    | relative => exact String.append_empty.symm

/-- A blank behind the text comes behind a mnemonic in any case. -/
theorem text_blank (i : Instruction) :
    i.text.toList ++ [' '] = i.mnemonic.toList ++ ' ' ::
      match i.field? with
      | none => []
      | some (width, v) => (Hex.literal width v).toList ++ [' '] := by
  rw [text_eq, String.toList_append, List.append_assoc]
  cases i.field? with
  | none => rfl
  | some f => simp [fieldText]

theorem text_inj {i j : Instruction} : i.text = j.text ↔ i = j := by
  refine ⟨fun h => ?_, congrArg text⟩
  have hb : i.text.toList ++ [' '] = j.text.toList ++ [' '] := by rw [h]
  rw [text_blank, text_blank] at hb
  obtain ⟨hm, hf⟩ := split_unique (mnemonic_plain i).1 (mnemonic_plain j).1 hb
  refine eq_of_blank_of_field (blank_eq_of_mnemonic (String.toList_inj.1 hm)) ?_
  cases hi : i.field? with
  | none =>
    cases hj : j.field? with
    | none => rfl
    | some g => simp [hi, hj] at hf
  | some f =>
    cases hj : j.field? with
    | none => simp [hi, hj] at hf
    | some g =>
      simp only [hi, hj] at hf
      have value := Hex.literal_inj (String.toList_inj.1 (List.append_cancel_right hf))
      exact congrArg some value

/-- The text has no sign that the journal puts between its parts. -/
theorem not_mem_text (i : Instruction) : '=' ∉ i.text.toList := by
  rw [text_eq, String.toList_append, List.mem_append]
  rintro (h | h)
  · exact (mnemonic_plain i).2 h
  · cases hi : i.field? with
    | none => simp [hi, fieldText] at h
    | some f =>
      have digit := Hex.not_mem_padded (c := '=') (by decide) f.1 f.2
      simp [hi, fieldText, Hex.literal, digit] at h

end Instruction

namespace Command.Journal

/-- The line on an instruction, by its signs. -/
theorem toList_traceLine (m : Machine) (i : Instruction) :
    (traceLine m i).toList = Hex.padded 6 m.pc ++ ':' :: ' ' ::
      ((i.text.toList ++ [' ', 's', 'p']) ++ '=' :: ((Hex.padded 6 m.sp ++ [' ', 'f', 'p']) ++ '=' ::
        Hex.padded 6 m.fp)) := by
  simp [traceLine]

end Command.Journal

/-- Two instructions have the same text only if they are the same, operands included, whatever
numbers stand there; a relative jump has no operand. A line of the journal says which instruction is
about to be executed, at which address, and where the stack and the frame are. -/
theorem text_names_one_instruction :
    (∀ i j : Instruction, i.text = j.text ↔ i = j) ∧
      ∀ (m n : Machine) (i j : Instruction),
        Command.Journal.traceLine m i = Command.Journal.traceLine n j ↔
          i = j ∧ m.pc = n.pc ∧ m.sp = n.sp ∧ m.fp = n.fp := by
  refine ⟨fun i j => Instruction.text_inj, fun m n i j => ⟨fun h => ?_, ?_⟩⟩
  · have hl := congrArg String.toList h
    have digits {c : Char} (hc : Hex.digitValue? c = none) (k : Nat) : c ∉ Hex.padded 6 k :=
      Hex.not_mem_padded hc 6 k
    have named (i : Instruction) : '=' ∉ i.text.toList ++ [' ', 's', 'p'] := by
      simp [i.not_mem_text]
    have placed (k : Nat) : '=' ∉ Hex.padded 6 k ++ [' ', 'f', 'p'] := by
      simp [digits (c := '=') (by decide) k]
    rw [Command.Journal.toList_traceLine, Command.Journal.toList_traceLine] at hl
    obtain ⟨hpc, rest⟩ := split_unique (digits (by decide) _) (digits (by decide) _) hl
    obtain ⟨htext, rest⟩ := split_unique (named i) (named j) (List.cons.inj rest).2
    obtain ⟨hsp, hfp⟩ := split_unique (placed _) (placed _) rest
    exact ⟨Instruction.text_inj.1 (String.toList_inj.1 (List.append_cancel_right htext)),
      Hex.padded_inj hpc, Hex.padded_inj (List.append_cancel_right hsp), Hex.padded_inj hfp⟩
  · rintro ⟨rfl, hpc, hsp, hfp⟩
    simp only [Command.Journal.traceLine, hpc, hsp, hfp]

end TwelveBit
