import TwelveBit.Decoding
import TwelveBit.Proofs.Keeps
/-!
What comes of decoding. Where it fails, a word could not be had, or the words at hand tell no
opcode or no mode of a jump. Where it succeeds, the addresses in the instruction are longs.
-/
namespace TwelveBit

theorem Opcode.number_ne_of_none {n : Nat} (h : ofNumber? n = none) (o : Opcode) :
    o.number ≠ n := by
  have := List.find?_eq_none.mp h o (mem_all o)
  simpa using this

theorem Opcode.number_of_some {n : Nat} {o : Opcode} (h : ofNumber? n = some o) : o.number = n := by
  simpa using List.find?_some h

theorem JumpMode.number_of_some {n : Nat} {a : JumpMode} (h : ofNumber? n = some a) :
    a.number = n := by
  simpa using List.find?_some h

/-- The modes have the numbers from 0 to 17. -/
theorem JumpMode.exists_of_le {n : Nat} (h : n ≤ 17) : ∃ a : JumpMode, a.number = n := by
  have listed : n ∈ all.map number := numbers_count ▸ List.mem_range.mpr (Nat.lt_succ_of_le h)
  obtain ⟨a, -, ha⟩ := List.mem_map.mp listed
  exact ⟨a, ha⟩

theorem JumpMode.lt_of_none {n : Nat} (h : ofNumber? n = none) : 17 < n := by
  refine Nat.lt_of_not_le fun hn => ?_
  obtain ⟨a, rfl⟩ := exists_of_le hn
  have := List.find?_eq_none.mp h a (mem_all a)
  simp at this

namespace Instruction
variable {fetch : Fetch} {f : Fault} {asked asked' : List Nat}

inductive Undecodable (fetch : Fetch) : Fault → Prop
  | word {k : Nat} {f : Fault} (h : fetch k = .error f) : Undecodable fetch f
  | opcode {op : Nat} (h : fetch 0 = .ok op) (hn : ∀ o : Opcode, o.number ≠ op) :
      Undecodable fetch (.unknownOpcode op)
  | mode {mode : Nat} (hop : fetch 0 = .ok Opcode.jump.number) (hmode : fetch 1 = .ok mode)
      (hn : 17 < mode) : Undecodable fetch (.unknownJumpMode mode)

theorem ok_of_ask {k w : Nat} (h : (ask fetch k).run asked = .ok w asked') : fetch k = .ok w := by
  simp only [EStateM.run, ask] at h
  cases hf : fetch k with
  | ok v =>
    simp only [hf] at h
    cases h
    rfl
  | error g =>
    simp only [hf] at h
    cases h

theorem undecodable_of_ask {k : Nat} (h : (ask fetch k).run asked = .error f asked') :
    Undecodable fetch f := by
  simp only [EStateM.run, ask] at h
  cases hf : fetch k with
  | ok v =>
    simp only [hf] at h
    cases h
  | error g =>
    simp only [hf] at h
    cases h
    exact .word hf

theorem undecodable_of_askLong {k : Nat} (h : (askLong fetch k).run asked = .error f asked') :
    Undecodable fetch f := by
  obtain h | ⟨high, t, -, h⟩ := error_of_bind h
  · exact undecodable_of_ask h
  obtain h | ⟨low, u, -, h⟩ := error_of_bind h
  · exact undecodable_of_ask h
  · cases h

theorem undecodable_of_askJump (hop : fetch 0 = .ok Opcode.jump.number)
    (h : (askJump fetch).run asked = .error f asked') : Undecodable fetch f := by
  obtain h | ⟨mode, t, hm, h⟩ := error_of_bind h
  · exact undecodable_of_ask h
  cases ho : JumpMode.ofNumber? mode with
  | none =>
    rw [ho] at h
    cases h
    exact .mode hop (ok_of_ask hm) (JumpMode.lt_of_none ho)
  | some a =>
    rw [ho] at h
    cases a with
    | relative => cases h
    | when c =>
      obtain h | ⟨target, u, -, h⟩ := error_of_bind h
      · exact undecodable_of_askLong h
      · cases h

theorem undecodable_of_decode (h : (decode fetch).run asked = .error f asked') :
    Undecodable fetch f := by
  obtain h | ⟨number, t, hn, h⟩ := error_of_bind h
  · exact undecodable_of_ask h
  have hnumber := ok_of_ask hn
  cases ho : Opcode.ofNumber? number with
  | none =>
    rw [ho] at h
    cases h
    exact .opcode hnumber (Opcode.number_ne_of_none ho)
  | some o =>
    rw [ho] at h
    cases o with
    | system | plain => cases h
    | word op =>
      obtain h | ⟨k, u, -, h⟩ := error_of_bind h
      · exact undecodable_of_ask h
      · cases h
    | long op =>
      obtain h | ⟨v, u, -, h⟩ := error_of_bind h
      · exact undecodable_of_askLong h
      · cases h
    | jump =>
      have hjump : fetch 0 = .ok Opcode.jump.number := by rw [hnumber, Opcode.number_of_some ho]
      obtain h | ⟨j, u, -, h⟩ := error_of_bind h
      · exact undecodable_of_askJump hjump h
      · cases h

theorem undecodable_of_fetched (h : fetched fetch = .error f) : Undecodable fetch f := by
  rw [fetched_eq] at h
  cases hd : (decode fetch).run [] with
  | ok i asked =>
    rw [hd] at h
    cases h
  | error g asked =>
    rw [hd] at h
    cases h
    exact undecodable_of_decode hd

theorem fetched_of_unknown {op : Nat} (h : fetch 0 = .ok op) (hn : Opcode.ofNumber? op = none) :
    fetched fetch = .error (.unknownOpcode op) := by
  have hd : (decode fetch).run [] = .error (.unknownOpcode op) [0] := by
    have ha : (ask fetch 0).run [] = .ok op [0] := by
      simp only [EStateM.run, ask, h, List.nil_append]
    simp only [decode, EStateM.run_bind, ha, hn]
    rfl
  rw [fetched_eq, hd]

def Targeted (i : Instruction) : Prop := ∀ a, i.target? = some a → a < 0x1000000

theorem yields_askLong (k : Nat) : Yields (· < 0x1000000) (askLong fetch k) :=
  Yields.of_bind fun high => Yields.of_bind fun low => Yields.of_pure (join_lt high low)

theorem yields_askJump : Yields (fun j => Targeted (.jump j)) (askJump fetch) := by
  refine Yields.of_bind fun mode => ?_
  cases JumpMode.ofNumber? mode with
  | none => exact Yields.of_throw _
  | some a =>
    cases a with
    | relative => exact Yields.of_pure fun a ha => by cases ha
    | when c =>
      refine (yields_askLong 2).bind fun target ht => Yields.of_pure fun a ha => ?_
      cases ha
      exact ht

theorem yields_decode : Yields Targeted (decode fetch) := by
  refine Yields.of_bind fun number => ?_
  cases Opcode.ofNumber? number with
  | none => exact Yields.of_throw _
  | some o =>
    cases o with
    | system | plain => exact Yields.of_pure fun a ha => by cases ha
    | word op => exact Yields.of_bind fun k => Yields.of_pure fun a ha => by cases ha
    | jump => exact yields_askJump.bind fun j hj => Yields.of_pure hj
    | long op =>
      refine (yields_askLong 1).bind fun v hv => Yields.of_pure fun a ha => ?_
      cases op with
      | push => cases ha
      | load | store | call =>
        cases ha
        exact hv

theorem targeted_of_fetched {i : Instruction} (h : fetched fetch = .ok i) : i.Targeted := by
  rw [fetched_eq] at h
  cases hd : (decode fetch).run [] with
  | ok j asked =>
    rw [hd] at h
    cases h
    exact yields_decode _ _ _ hd
  | error g asked =>
    rw [hd] at h
    cases h

end Instruction
end TwelveBit
