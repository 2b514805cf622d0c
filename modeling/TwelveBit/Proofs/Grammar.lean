import TwelveBit.Proofs.DecodingOutcome
import TwelveBit.Proofs.Encoding
/-!
The grammar of instructions. The number of an opcode, and the mode behind that of jumps, tell how
many words of operands follow. Decoding asks for these words one behind the other and for no other
ones, so nothing else can make it fail or change what comes of it.
-/
namespace TwelveBit

namespace Instruction
variable {α β : Type} {fetch : Fetch} {n m : Nat} {i : Instruction} {asked : List Nat}

/-- Begun at offset `n`, this asks for the words up to offset `m`, each of them once and in their
order. What comes of it depends on these words alone, and the first of them that cannot be had is
the last one asked for. -/
structure Reads (x : Fetch → Asking α) (fetch : Fetch) (n m : Nat) : Prop where
  le : n ≤ m
  record : leftBehind ((x fetch).run (List.range n)) = List.range m
  alone : ∀ other : Fetch, (∀ k, n ≤ k → k < m → other k = fetch k) →
    (x other).run (List.range n) = (x fetch).run (List.range n)
  failed : ∀ k f, n ≤ k → k < m → fetch k = .error f →
    (x fetch).run (List.range n) = .error f (List.range (k + 1))

theorem run_ask_of_error {k : Nat} {f : Fault} (h : fetch k = .error f) (asked : List Nat) :
    (ask fetch k).run asked = .error f (asked ++ [k]) := by
  simp only [EStateM.run, ask, h]

namespace Reads

/-- Where nothing is asked for, there is nothing to fail. -/
theorem of_silent {x : Asking α} (h : leftBehind (x.run (List.range n)) = List.range n) :
    Reads (fun _ => x) fetch n n where
  le := Nat.le_refl n
  record := h
  alone _ _ := rfl
  failed _ _ hn hk := absurd hk (Nat.not_lt.2 hn)

theorem of_ask : Reads (fun fetch => ask fetch n) fetch n (n + 1) where
  le := Nat.le_succ n
  record := by
    rw [List.range_succ]
    cases h : fetch n with
    | ok w => rw [run_ask h]; rfl
    | error f => rw [run_ask_of_error h]; rfl
  alone other agree := by
    have same := agree n (Nat.le_refl n) (Nat.lt_succ_self n)
    cases h : fetch n with
    | ok w => rw [run_ask h, run_ask (same.trans h)]
    | error f => rw [run_ask_of_error h, run_ask_of_error (same.trans h)]
  failed k f hn hk h := by
    obtain rfl : k = n := Nat.le_antisymm (Nat.le_of_lt_succ hk) hn
    rw [run_ask_of_error h, List.range_succ]

/-- The second part goes on where the first one has come to. -/
theorem bind {x : Fetch → Asking α} {y : α → Fetch → Asking β} (hx : Reads x fetch n m)
    (hy : ∀ a, ∃ p, Reads (y a) fetch m p) :
    ∃ p, Reads (fun fetch => x fetch >>= fun a => y a fetch) fetch n p := by
  have record := hx.record
  cases hr : (x fetch).run (List.range n) with
  | error e t =>
    -- the second reader is never asked
    refine ⟨m, hx.le, ?_, fun other agree => ?_, fun k f hn hk h => ?_⟩
    · rw [EStateM.run_bind, hr]
      rwa [hr] at record
    · rw [EStateM.run_bind, EStateM.run_bind, hx.alone other agree, hr]
    · rw [EStateM.run_bind, hx.failed k f hn hk h]
  | ok a t =>
    rw [hr] at record
    obtain rfl : t = List.range m := record
    obtain ⟨p, hp⟩ := hy a
    refine ⟨p, Nat.le_trans hx.le hp.le, ?_, fun other agree => ?_, fun k f hn hk h => ?_⟩
    · rw [EStateM.run_bind, hr]
      exact hp.record
    · have first := hx.alone other fun k hn hk => agree k hn (Nat.lt_of_lt_of_le hk hp.le)
      have rest := hp.alone other fun k hm hk => agree k (Nat.le_trans hx.le hm) hk
      rw [EStateM.run_bind, EStateM.run_bind, first, hr]
      exact rest
    -- the word that cannot be read belongs to the first reader or to the second
    · obtain hlt | hle := Nat.lt_or_ge k m
      · have failed := hx.failed k f hn hlt h
        rw [hr] at failed
        cases failed
      · rw [EStateM.run_bind, hr]
        exact hp.failed k f hle hk h

end Reads

theorem reads_askLong (fetch : Fetch) (k : Nat) :
    ∃ m, Reads (fun fetch => askLong fetch k) fetch k m :=
  Reads.of_ask.bind fun _ => Reads.of_ask.bind fun _ => ⟨_, .of_silent rfl⟩

theorem reads_askJump (fetch : Fetch) : ∃ m, Reads askJump fetch 1 m := by
  refine Reads.of_ask.bind fun mode => ?_
  cases JumpMode.ofNumber? mode with
  | none => exact ⟨_, .of_silent rfl⟩
  | some a =>
    cases a with
    | relative => exact ⟨_, .of_silent rfl⟩
    | when c =>
      obtain ⟨m, target⟩ := reads_askLong fetch 2
      exact target.bind fun _ => ⟨m, .of_silent rfl⟩

theorem reads_decode (fetch : Fetch) : ∃ m, Reads decode fetch 0 m := by
  refine Reads.of_ask.bind fun number => ?_
  cases Opcode.ofNumber? number with
  | none => exact ⟨_, .of_silent rfl⟩
  | some o =>
    cases o with
    | system | plain => exact ⟨_, .of_silent rfl⟩
    | word op => exact Reads.of_ask.bind fun k => ⟨_, .of_silent rfl⟩
    | long op =>
      obtain ⟨m, value⟩ := reads_askLong fetch 1
      exact value.bind fun _ => ⟨m, .of_silent rfl⟩
    | jump =>
      obtain ⟨m, jump⟩ := reads_askJump fetch
      exact jump.bind fun _ => ⟨m, .of_silent rfl⟩

end Instruction

theorem Condition.number_lt (c : Condition) : c.number < JumpMode.relative.number := by
  have all : ∀ a ∈ JumpMode.all, a ≠ .relative → a.number < JumpMode.relative.number := by decide
  exact all (.when c) (JumpMode.mem_all _) JumpMode.noConfusion

def Fetch.Gives (fetch : Fetch) (k : Nat) : Prop := ∃ w, fetch k = .ok w

def Opcode.Completed (fetch : Fetch) : Opcode → Prop
  | system _ | plain _ => True
  | word _ => fetch.Gives 1
  | long _ => fetch.Gives 1 ∧ fetch.Gives 2
  | jump => ∃ mode ≤ 17, fetch 1 = .ok mode ∧ (mode ≠ 17 → fetch.Gives 2 ∧ fetch.Gives 3)

namespace Instruction
variable {fetch : Fetch} {i : Instruction} {ws asked : List Nat}

def heads : Instruction → Nat
  | jump _ => 2
  | _ => 1

theorem Shows.nil : Shows fetch [] := fun _ _ h => by cases h

theorem Shows.cons {w : Nat} (first : fetch 0 = .ok w) (rest : Shows (fun k => fetch (k + 1)) ws) :
    Shows fetch (w :: ws) := by
  intro k v h
  cases k with
  | zero =>
    cases h
    exact first
  | succ k => exact rest k v h

theorem Spells.encode_eq (h : Spells ws i) :
    i.encode = ws.take i.heads ++ (ws.drop i.heads).map toWord := by
  cases h with
  | system | plain | word | relative => rfl
  | long op a b =>
    show [op.number, high (join a b), low (join a b)] = [op.number, toWord a, toWord b]
    rw [high_join, low_join]
  | absolute c a b =>
    show [Opcode.jump.number, c.number, high (join a b), low (join a b)] =
      [Opcode.jump.number, c.number, toWord a, toWord b]
    rw [high_join, low_join]

theorem ok_of_askLong {k v : Nat} {asked' : List Nat}
    (h : (askLong fetch k).run asked = .ok v asked') :
    ∃ a b, fetch k = .ok a ∧ fetch (k + 1) = .ok b ∧ v = join a b := by
  obtain ⟨a, t, first, h⟩ := ok_of_bind h
  obtain ⟨b, second, rfl⟩ := ok_of_bind_pure h
  exact ⟨a, b, ok_of_ask first, ok_of_ask second, rfl⟩

theorem spells_of_askJump {j : Jump} {asked' : List Nat}
    (first : fetch 0 = .ok Opcode.jump.number)
    (h : (askJump fetch).run asked = .ok j asked') :
    ∃ ws, Spells ws (.jump j) ∧ Shows fetch ws := by
  obtain ⟨mode, t, hm, h⟩ := ok_of_bind h
  have second := ok_of_ask hm
  cases ha : JumpMode.ofNumber? mode with
  | none =>
    rw [ha] at h
    cases h
  | some a =>
    obtain rfl := JumpMode.number_of_some ha
    rw [ha] at h
    cases a with
    | relative =>
      cases h
      exact ⟨_, .relative, .cons first (.cons second .nil)⟩
    | when c =>
      obtain ⟨v, hv, rfl⟩ := ok_of_bind_pure h
      obtain ⟨a, b, third, fourth, rfl⟩ := ok_of_askLong hv
      exact ⟨_, .absolute c a b, .cons first (.cons second (.cons third (.cons fourth .nil)))⟩

/-- Whatever is decoded is spelled by the words at hand. -/
theorem spells_of_decode (h : (decode fetch).run [] = .ok i asked) :
    ∃ ws, Spells ws i ∧ Shows fetch ws := by
  obtain ⟨number, t, hn, h⟩ := ok_of_bind h
  have first := ok_of_ask hn
  cases ho : Opcode.ofNumber? number with
  | none =>
    rw [ho] at h
    cases h
  | some o =>
    obtain rfl := Opcode.number_of_some ho
    rw [ho] at h
    cases o with
    | system op =>
      cases h
      exact ⟨_, .system op, .cons first .nil⟩
    | plain op =>
      cases h
      exact ⟨_, .plain op, .cons first .nil⟩
    | word op =>
      obtain ⟨k, hk, rfl⟩ := ok_of_bind_pure h
      exact ⟨_, .word op k, .cons first (.cons (ok_of_ask hk) .nil)⟩
    | long op =>
      obtain ⟨v, hv, rfl⟩ := ok_of_bind_pure h
      obtain ⟨a, b, second, third, rfl⟩ := ok_of_askLong hv
      exact ⟨_, .long op a b, .cons first (.cons second (.cons third .nil))⟩
    | jump =>
      obtain ⟨j, hj, rfl⟩ := ok_of_bind_pure h
      exact spells_of_askJump first hj

/-- The words at hand spell an instruction exactly if they begin with the number of an opcode and
all that belongs to it is there. -/
theorem exists_spells_iff :
    (∃ ws i, Spells ws i ∧ Shows fetch ws) ↔
      ∃ op : Opcode, fetch 0 = .ok op.number ∧ op.Completed fetch := by
  constructor
  · rintro ⟨ws, i, spells, shown⟩
    refine ⟨i.opcode, shown 0 _ (List.head?_eq_getElem? ▸ spells.head?_eq), ?_⟩
    cases spells with
    | system | plain => exact trivial
    | word op k => exact ⟨k, shown 1 _ rfl⟩
    | long op a b => exact ⟨⟨a, shown 1 _ rfl⟩, ⟨b, shown 2 _ rfl⟩⟩
    | absolute c a b =>
      exact ⟨c.number, Nat.le_of_lt c.number_lt, shown 1 _ rfl,
        fun _ => ⟨⟨a, shown 2 _ rfl⟩, ⟨b, shown 3 _ rfl⟩⟩⟩
    | relative => exact ⟨17, Nat.le_refl 17, shown 1 _ rfl, fun h => absurd rfl h⟩
  · rintro ⟨op, first, completed⟩
    cases op with
    | system op => exact ⟨_, _, .system op, .cons first .nil⟩
    | plain op => exact ⟨_, _, .plain op, .cons first .nil⟩
    | word op =>
      obtain ⟨k, second⟩ := completed
      exact ⟨_, _, .word op k, .cons first (.cons second .nil)⟩
    | long op =>
      obtain ⟨⟨a, second⟩, ⟨b, third⟩⟩ := completed
      exact ⟨_, _, .long op a b, .cons first (.cons second (.cons third .nil))⟩
    | jump =>
      obtain ⟨mode, hmode, second, target⟩ := completed
      obtain ⟨a, rfl⟩ := JumpMode.exists_of_le hmode
      cases a with
      | relative => exact ⟨_, _, .relative, .cons first (.cons second .nil)⟩
      | when c =>
        obtain ⟨⟨a, third⟩, ⟨b, fourth⟩⟩ := target (Nat.ne_of_lt c.number_lt)
        exact ⟨_, _, .absolute c a b,
          .cons first (.cons second (.cons third (.cons fourth .nil)))⟩

/-- Decoding asks for the words from the first one on, each of them once, until it knows what to
answer: so other words make no difference, and a word that cannot be had is the last one asked for.
It succeeds exactly if the first word is the number of an opcode, a jump has one of the modes, and
all operands can be had. Then it has asked for the words of the instruction, which are those that it
is encoded as, save that the operands lose their upper bits. -/
theorem decoding_follows_the_grammar (fetch : Fetch) :
    ∃ n, leftBehind ((decode fetch).run []) = List.range n ∧
      (∀ other : Fetch, (∀ k < n, other k = fetch k) →
        (decode other).run [] = (decode fetch).run []) ∧
      (∀ k < n, ∀ f, fetch k = .error f →
        (decode fetch).run [] = .error f (List.range (k + 1))) ∧
      ((∃ i asked, (decode fetch).run [] = .ok i asked) ↔
        ∃ op : Opcode, fetch 0 = .ok op.number ∧ op.Completed fetch) ∧
      ∀ i asked, (decode fetch).run [] = .ok i asked →
        asked = List.range i.size ∧ n = i.size ∧
          ∃ ws, ws.length = i.size ∧ Shows fetch ws ∧
            i.encode = ws.take i.heads ++ (ws.drop i.heads).map toWord := by
  obtain ⟨n, reads⟩ := reads_decode fetch
  refine ⟨n, reads.record, fun other agree => reads.alone other fun k _ hk => agree k hk,
    fun k hk f h => reads.failed k f (Nat.zero_le k) hk h, ?_, fun i asked run => ?_⟩
  · rw [← exists_spells_iff]
    constructor
    · rintro ⟨i, asked, run⟩
      obtain ⟨ws, spells, shown⟩ := spells_of_decode run
      exact ⟨ws, i, spells, shown⟩
    · rintro ⟨ws, i, spells, shown⟩
      exact ⟨i, _, spells.run_decode shown⟩
  · obtain ⟨ws, spells, shown⟩ := spells_of_decode run
    have whole := spells.run_decode shown
    have record := reads.record
    rw [List.range_zero, whole] at record
    have same := congrArg List.length record
    simp only [leftBehind, List.length_range] at same
    rw [run] at whole
    cases whole
    exact ⟨rfl, same.symm, ws, spells.length_eq, shown, spells.encode_eq⟩

/-- A jump whose target has too many bits is decoded from four words, whether or not there is a
fifth, and encoded with the bits that count. Three words do not make it up. -/
theorem jump_is_decoded_from_four_words :
    let i : Instruction := .jump (.absolute (.zero .long) 0xABCDEF)
    let three := fetchFrom #[0x040, 3, 0x1ABC] 0
    let four := fetchFrom #[0x040, 3, 0x1ABC, 0xFDEF] 0
    let five := fetchFrom #[0x040, 3, 0x1ABC, 0xFDEF, 0xFFF] 0
    (decode four).run [] = .ok i [0, 1, 2, 3] ∧ (decode five).run [] = .ok i [0, 1, 2, 3] ∧
      (∃ ws, ws.length = 4 ∧ Shows four ws ∧ i.encode = ws.take 2 ++ (ws.drop 2).map toWord) ∧
      (decode three).run [] = .error (.outOfRange 3) [0, 1, 2, 3] ∧
      ¬ ∃ op : Opcode, three 0 = .ok op.number ∧ op.Completed three := by
  intro i three four five
  have whole : (decode four).run [] = .ok i [0, 1, 2, 3] := rfl
  have cut : (decode three).run [] = .error (.outOfRange 3) [0, 1, 2, 3] := rfl
  obtain ⟨n, -, alone, -, -, written⟩ := decoding_follows_the_grammar four
  obtain ⟨-, rfl, back⟩ := written i _ whole
  have same (k : Nat) (hk : k < i.size) : five k = four k := by
    have each : ∀ k : Fin 4, five k = four k := by decide
    exact each ⟨k, hk⟩
  obtain ⟨m, record, -, failed, accepts, -⟩ := decoding_follows_the_grammar three
  have all_asked : 4 = m := by simpa [cut, leftBehind] using congrArg List.length record
  refine ⟨whole, (alone five same).trans whole, back, failed 3 (by omega) _ rfl,
    fun complete => ?_⟩
  obtain ⟨j, asked, run⟩ := accepts.2 complete
  rw [cut] at run
  cases run

end Instruction
end TwelveBit
