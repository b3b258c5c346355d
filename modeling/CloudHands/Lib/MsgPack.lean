import Mathlib.Tactic

/-!
# MessagePack tokens

A MessagePack text as the sequence of its headers and scalars. `Values n ts` says that `ts`
is exactly `n` complete values one after the other. The balance of a sequence, the tokens in
it less the values they announce, is additive and is the number of values if it is made of
complete ones; it shows how many values too many a sequence holds.
-/

namespace CloudHands.Lib

inductive Token
  | uint (v : ℕ)
  | str (bytes : List UInt8)
  | bin (bytes : List UInt8)
  | map (n : ℕ)
  | array (n : ℕ)
deriving DecidableEq

namespace Token

def announced : Token → ℕ
  | .map n => 2 * n
  | .array n => n
  | _ => 0

end Token

inductive Values : ℕ → List Token → Prop
  | nil : Values 0 []
  | cons {t : Token} {ts us : List Token} {n : ℕ} :
      Values t.announced ts → Values n us → Values (n + 1) (t :: (ts ++ us))

theorem Values.scalar {t : Token} (h : t.announced = 0) : Values 1 [t] := by
  have hinner : Values t.announced [] := by
    rw [h]
    exact .nil
  exact Values.cons hinner .nil

theorem Values.append {m n : ℕ} {ts us : List Token} (hts : Values m ts) (hus : Values n us) :
    Values (m + n) (ts ++ us) := by
  induction hts with
  | nil => simpa using hus
  | @cons t inner rest k hinner _ _ ih =>
    have hall := Values.cons hinner ih
    rwa [Nat.add_right_comm, List.cons_append, List.append_assoc]

theorem Values.header {t : Token} {ts : List Token} (h : Values t.announced ts) :
    Values 1 (t :: ts) := by
  simpa using Values.cons h .nil

def balance : List Token → ℤ
  | [] => 0
  | t :: ts => 1 - t.announced + balance ts

@[simp] theorem balance_nil : balance [] = 0 := rfl

@[simp] theorem balance_cons (t : Token) (ts : List Token) :
    balance (t :: ts) = 1 - t.announced + balance ts := rfl

@[simp] theorem balance_append (ts us : List Token) :
    balance (ts ++ us) = balance ts + balance us := by
  induction ts with
  | nil => simp
  | cons t ts ih => simp [ih, Int.add_assoc]

theorem Values.balance_eq {n : ℕ} {ts : List Token} (h : Values n ts) : balance ts = n := by
  induction h with
  | nil => rfl
  | cons _ _ ihts ihus =>
    rw [balance_cons, balance_append, ihts, ihus]
    push_cast
    ring

theorem balance_flatMap {α : Type*} {f : α → List Token} {k : ℤ} {xs : List α}
    (h : ∀ x ∈ xs, balance (f x) = k) : balance (xs.flatMap f) = k * xs.length := by
  induction xs with
  | nil => simp
  | cons x xs ih =>
    rw [List.flatMap_cons, balance_append, h x (by simp), ih fun y hy => h y (by simp [hy])]
    push_cast [List.length_cons]
    ring

end CloudHands.Lib
