import CloudHands.Http.Session
import CloudHands.Telnet.Parse
import Mathlib.Data.List.GetD
import Mathlib.Data.List.TakeWhile
import Mathlib.Order.Bounds.Basic

/-!
# The login of a Telnet session

`login_parse` of `do_telnet_format.c`, which looks for the name and the password in the content
file. Pointers into the text are positions, and a write outside of the two buffers, or the copy up
to a pointer that is null, is `none`.
-/

namespace CloudHands.Telnet

open Http (CR LF bytesOf toLower)

def TELNET_BUF_SIZE : ℕ := 256
def TELNET_LOGIN_SIZE : ℕ := 1024 * 512

def USER : List String := ["Username:", "login:", "User:"]

/-- The word stands at a position of the text, in letters of either case. -/
def occursAt (buf : List UInt8) (word : String) (j : ℕ) : Bool :=
  ((bytesOf word).map toLower).isPrefixOf ((buf.drop j).map toLower)

/-- `strcasestr` from a position on. -/
def strcasestr (buf : List UInt8) (i : ℕ) (word : String) : Option ℕ :=
  (List.range' i (buf.length + 1 - i)).find? (occursAt buf word)

/-- `strchr` from a position on. -/
def strchr (buf : List UInt8) (i : ℕ) (c : UInt8) : Option ℕ :=
  ((buf.drop i).idxOf? c).map (i + ·)

/-- `get_login_prefix`. -/
def getLoginPrefix (buf : List UInt8) : Option String :=
  USER.find? fun p => (strcasestr buf 0 p).isSome

def notBehindBlank (buf : List UInt8) (j : ℕ) : Bool :=
  buf.getD (j - 1) 0 ≠ 32 && buf.getD (j - 1) 0 ≠ LF

def lastLogin (buf : List UInt8) (lgnPrefix : String) : ℕ → ℕ → ℕ → ℕ
  | 0, lgn, _ => lgn
  | fuel + 1, lgn, tmp =>
    match strcasestr buf (tmp + 1) lgnPrefix with
    | none => lgn
    | some tmp =>
      if notBehindBlank buf tmp then
        if (strcasestr buf tmp "Password:").isSome then lastLogin buf lgnPrefix fuel tmp tmp
        else lgn
      else lastLogin buf lgnPrefix fuel lgn tmp

/-- The bytes between two positions in a buffer of `TELNET_BUF_SIZE` bytes. A field of just that
size is not cut, and its end is written behind the buffer. -/
def copyField (buf : List UInt8) (lgn tmp : ℕ) : Option (List UInt8) :=
  let size := if TELNET_BUF_SIZE < tmp - lgn then TELNET_BUF_SIZE - 1 else tmp - lgn
  if size < TELNET_BUF_SIZE then some ((buf.drop lgn).take size) else none

def echoLeft (user : List UInt8) : ℕ → ℕ → ℕ
  | 0, _ => 0
  | 1, _ => 1
  | size + 2, tmp =>
    if user.getD tmp 0 ≠ user.getD (tmp + 1) 0 then size + 2 else echoLeft user size (tmp + 2)

def halve : ℕ → ℕ → List UInt8 → List UInt8
  | 0, _, user => user
  | left + 1, i, user => halve left (i + 1) (user.set i (user.getD (i * 2 + 1) 0))

def echoRemove (user : List UInt8) : List UInt8 :=
  let size := user.length
  if size = 0 then user
  else
    let tmp := if user.getD 0 0 = 32 then 1 else 0
    if echoLeft user (size - tmp) tmp = 0 then (halve (size / 2) 0 user).take (size / 2) else user

structure Login where
  user : List UInt8
  password : List UInt8
deriving DecidableEq, Repr

def passwordParse (buf : List UInt8) (lgn : ℕ) : Option (List UInt8) :=
  match strcasestr buf lgn "Password:" with
  | none => some []
  | some found =>
    match strchr buf (found + 9) CR with
    | none => some []
    | some tmp => copyField buf (found + 9) tmp

/-- `login_parse` with two empty buffers. -/
def loginParse (buf : List UInt8) : Option Login :=
  match getLoginPrefix buf with
  | none => some ⟨[], []⟩
  | some lgnPrefix =>
    match strcasestr buf 0 lgnPrefix with
    | none => some ⟨[], []⟩
    | some lgn =>
      if (strchr buf lgn CR).isSome then do
        let lgn := lastLogin buf lgnPrefix buf.length lgn lgn + (bytesOf lgnPrefix).length
        let tmp ← strchr buf lgn CR
        let user ← copyField buf lgn tmp
        let password ← passwordParse buf lgn
        some ⟨echoRemove user, password⟩
      else some ⟨[], []⟩

section Positions

variable {buf : List UInt8} {word lgnPrefix : String} {i j : ℕ}

theorem le_length_of_occursAt (hword : bytesOf word ≠ []) (h : occursAt buf word j = true) :
    j < buf.length := by
  by_contra hle
  rw [occursAt, List.drop_eq_nil_of_le (Nat.le_of_not_lt hle), List.map_nil,
    List.isPrefixOf_iff_prefix, List.prefix_nil, List.map_eq_nil_iff] at h
  exact hword h

theorem strcasestr_eq_some_iff (hword : bytesOf word ≠ []) :
    strcasestr buf i word = some j ↔ IsLeast {k | i ≤ k ∧ occursAt buf word k = true} j := by
  rw [strcasestr, List.find?_range'_eq_some]
  constructor
  · rintro ⟨hj, hmem, hnone⟩
    refine ⟨⟨(List.mem_range'_1.1 hmem).1, hj⟩, fun k ⟨hik, hk⟩ => ?_⟩
    by_contra hlt
    have hno := hnone k hik (Nat.lt_of_not_le hlt)
    rw [hk] at hno
    cases hno
  · rintro ⟨⟨hij, hj⟩, hleast⟩
    have hlt := le_length_of_occursAt hword hj
    refine ⟨hj, List.mem_range'_1.2 ⟨hij, by omega⟩, fun k hik hkj => ?_⟩
    by_contra hk
    have hle := hleast ⟨hik, by simpa using hk⟩
    omega

theorem strcasestr_eq_none_iff (hword : bytesOf word ≠ []) :
    strcasestr buf i word = none ↔ ∀ k, i ≤ k → ¬ occursAt buf word k = true := by
  rw [strcasestr, List.find?_eq_none]
  constructor
  · intro hnone k hik hk
    have hlt := le_length_of_occursAt hword hk
    exact hnone k (List.mem_range'_1.2 ⟨hik, by omega⟩) hk
  · exact fun hnone k hk => hnone k (List.mem_range'_1.1 hk).1

theorem strchr_eq_none_iff {c : UInt8} : strchr buf i c = none ↔ c ∉ buf.drop i := by
  simp [strchr]

theorem strchr_of_field {field rest : List UInt8} {c : UInt8}
    (hdrop : buf.drop i = field ++ c :: rest)
    (hfield : c ∉ field) : strchr buf i c = some (i + field.length) := by
  have hidx : (field ++ c :: rest).idxOf? c = some field.length := by
    rw [List.idxOf?, List.findIdx?_append]
    have hnone : field.findIdx? (· == c) = none :=
      List.findIdx?_eq_none_iff.2 fun x hx => by
        simpa using fun heq : x = c => hfield (heq ▸ hx)
    simp [hnone, List.findIdx?_cons]
  rw [strchr, hdrop, hidx, Option.map_some]

theorem getLoginPrefix_ne_nil (h : getLoginPrefix buf = some lgnPrefix) :
    bytesOf lgnPrefix ≠ [] := by
  have hmem := List.mem_of_find?_eq_some h
  simp only [USER, List.mem_cons, List.not_mem_nil, or_false] at hmem
  rcases hmem with rfl | rfl | rfl
  all_goals decide

end Positions

section LastLogin

variable {buf : List UInt8} {lgnPrefix : String} {first lgn tmp j : ℕ}

def Retried (buf : List UInt8) (lgnPrefix : String) (j : ℕ) : Prop :=
  occursAt buf lgnPrefix j = true ∧ notBehindBlank buf j = true ∧
    ∃ k, j ≤ k ∧ occursAt buf "Password:" k = true

/-- The first login, and every other one that is asked for again. -/
def Chosen (buf : List UInt8) (lgnPrefix : String) (j : ℕ) : Prop :=
  IsLeast {k | occursAt buf lgnPrefix k = true} j ∨ Retried buf lgnPrefix j

theorem Chosen.occurs (h : Chosen buf lgnPrefix j) : occursAt buf lgnPrefix j = true := by
  rcases h with hleast | hretried
  · exact hleast.1
  · exact hretried.1

theorem Chosen.retried (hfirst : IsLeast {k | occursAt buf lgnPrefix k = true} first)
    (h : Chosen buf lgnPrefix j) (hlt : first < j) : Retried buf lgnPrefix j := by
  rcases h with hleast | hretried
  · exact absurd (hfirst.unique hleast) (Nat.ne_of_lt hlt)
  · exact hretried

theorem password_ne_nil : bytesOf "Password:" ≠ [] := by decide

theorem password_isSome_iff :
    (strcasestr buf j "Password:").isSome = true ↔ ∃ k, j ≤ k ∧
      occursAt buf "Password:" k = true := by
  rw [Option.isSome_iff_ne_none, ne_eq, strcasestr_eq_none_iff password_ne_nil]
  push Not
  exact Iff.rfl

/-- The loop has seen the positions up to `tmp` and keeps the last that is chosen. -/
def Kept (buf : List UInt8) (lgnPrefix : String) (lgn tmp : ℕ) : Prop :=
  IsGreatest {j | Chosen buf lgnPrefix j ∧ j ≤ tmp} lgn

theorem kept_first (hfirst : IsLeast {k | occursAt buf lgnPrefix k = true} first) :
    Kept buf lgnPrefix first first :=
  ⟨⟨.inl hfirst, Nat.le_refl first⟩, fun _ hj => hj.2⟩

theorem Kept.next (h : Kept buf lgnPrefix lgn tmp) {tmp' : ℕ}
    (hnext : IsLeast {k | tmp + 1 ≤ k ∧ occursAt buf lgnPrefix k = true} tmp') :
    (Chosen buf lgnPrefix tmp' → Kept buf lgnPrefix tmp' tmp') ∧
      (¬ Chosen buf lgnPrefix tmp' → Kept buf lgnPrefix lgn tmp') := by
  have hlt : tmp < tmp' := hnext.1.1
  refine ⟨fun hchosen => ⟨⟨hchosen, Nat.le_refl tmp'⟩, fun j hj => hj.2⟩, fun hnot => ?_⟩
  refine ⟨⟨h.1.1, h.1.2.trans (Nat.le_of_lt hlt)⟩, fun j hj => ?_⟩
  rcases Nat.lt_or_ge tmp j with hbehind | hseen
  · have hle : tmp' ≤ j := hnext.2 ⟨hbehind, hj.1.occurs⟩
    exact absurd (Nat.le_antisymm hj.2 hle ▸ hj.1) hnot
  · exact h.2 ⟨hj.1, hseen⟩

theorem Kept.isGreatest (h : Kept buf lgnPrefix lgn tmp)
    (hnone : ∀ j, tmp < j → ¬ Chosen buf lgnPrefix j) :
      IsGreatest {j | Chosen buf lgnPrefix j} lgn :=
  ⟨h.1.1, fun j hj => h.2 ⟨hj, Nat.le_of_not_lt fun hlt => hnone j hlt hj⟩⟩

theorem lastLogin_isGreatest (hlgnPrefix : bytesOf lgnPrefix ≠ [])
    (hfirst : IsLeast {k | occursAt buf lgnPrefix k = true} first) {fuel : ℕ}
    (hfuel : buf.length ≤ tmp + fuel) (hle : first ≤ tmp) (h : Kept buf lgnPrefix lgn tmp) :
    IsGreatest {j | Chosen buf lgnPrefix j} (lastLogin buf lgnPrefix fuel lgn tmp) := by
  induction fuel generalizing lgn tmp with
  | zero =>
    refine h.isGreatest fun j hlt hj => ?_
    have hin := le_length_of_occursAt hlgnPrefix hj.occurs
    omega
  | succ fuel ih =>
    rw [lastLogin]
    cases hnext : strcasestr buf (tmp + 1) lgnPrefix with
    | none =>
      rw [strcasestr_eq_none_iff hlgnPrefix] at hnext
      exact h.isGreatest fun j hlt hj => hnext j hlt hj.occurs
    | some tmp' =>
      rw [strcasestr_eq_some_iff hlgnPrefix] at hnext
      have hlt : tmp < tmp' := hnext.1.1
      dsimp only
      split
      · rename_i hblank
        split
        · rename_i hpassword
          have hchosen : Chosen buf lgnPrefix tmp' :=
            .inr ⟨hnext.1.2, hblank, password_isSome_iff.1 hpassword⟩
          exact ih (by omega) (by omega) ((h.next hnext).1 hchosen)
        · -- no later login is before a password either
          rename_i hpassword
          rw [password_isSome_iff] at hpassword
          refine h.isGreatest fun j hbehind hj => hpassword ?_
          obtain ⟨-, -, k, hjk, hk⟩ := hj.retried hfirst (by omega)
          exact ⟨k, (hnext.2 ⟨hbehind, hj.occurs⟩).trans hjk, hk⟩
      · rename_i hblank
        have hnot : ¬ Chosen buf lgnPrefix tmp' := fun hchosen =>
          hblank (hchosen.retried hfirst (by omega)).2.1
        exact ih (by omega) (by omega) ((h.next hnext).2 hnot)

end LastLogin

section Echo

variable {user name : List UInt8} {size tmp : ℕ}

def double (name : List UInt8) : List UInt8 := name.flatMap fun b => [b, b]

@[simp] theorem double_nil : double [] = [] := rfl

@[simp] theorem double_cons (b : UInt8) (name : List UInt8) :
    double (b :: name) = b :: b :: double name :=
  rfl

@[simp] theorem length_double (name : List UInt8) : (double name).length = 2 * name.length := by
  induction name with
  | nil => rfl
  | cons b name ih =>
    rw [double_cons, List.length_cons, List.length_cons, List.length_cons, ih]
    omega

theorem mem_double {b : UInt8} : b ∈ double name ↔ b ∈ name := by
  simp [double]

theorem getD_double (name : List UInt8) (k : ℕ) :
    (double name).getD (k * 2) 0 = name.getD k 0 ∧ (double name).getD
    (k * 2 + 1) 0 = name.getD k 0 := by
  induction name generalizing k with
  | nil => simp
  | cons b name ih =>
    cases k with
    | zero => simp
    | succ k =>
      have hk : (k + 1) * 2 = k * 2 + 1 + 1 := by omega
      simpa [hk] using ih k

theorem map_range_getD (name : List UInt8) :
    (List.range name.length).map (fun k => name.getD k 0) = name := by
  refine List.ext_getElem (by simp) fun k hk hk' => ?_
  simp [hk']

theorem echoLeft_eq_zero_iff (hsize : tmp + size = user.length) :
    echoLeft user size tmp = 0 ↔ ∃ name, user.drop tmp = double name := by
  induction size, tmp using echoLeft.induct user with
  | case1 tmp =>
    rw [List.drop_eq_nil_of_le (by omega), echoLeft]
    exact ⟨fun _ => ⟨[], rfl⟩, fun _ => rfl⟩
  | case2 tmp =>
    rw [echoLeft]
    refine ⟨fun h => absurd h one_ne_zero, fun ⟨name, hname⟩ => ?_⟩
    have hlen := congrArg List.length hname
    rw [List.length_drop, length_double] at hlen
    omega
  | case3 size tmp hne =>
    rw [echoLeft, if_pos hne]
    refine ⟨fun h => by omega, fun ⟨name, hname⟩ => ?_⟩
    exfalso
    have hfirst := (getD_double name 0).1
    have hsecond := (getD_double name 0).2
    rw [← hname, List.getD_eq_getElem?_getD, List.getElem?_drop] at hfirst hsecond
    simp only [List.getD_eq_getElem?_getD] at hne hfirst hsecond
    exact hne (by simpa using hfirst.trans hsecond.symm)
  | case4 size tmp heq ih =>
    rw [echoLeft, if_neg heq, ih (by omega)]
    rw [not_not] at heq
    have hdrop : user.drop tmp = user.getD tmp 0 :: user.getD tmp 0 :: user.drop (tmp + 2) := by
      rw [List.drop_eq_getElem_cons (by omega), List.drop_eq_getElem_cons (by omega)]
      rw [List.getD_eq_getElem _ _ (by omega), List.getD_eq_getElem _ _ (by omega)] at heq
      rw [List.getD_eq_getElem _ _ (by omega), ← heq]
    rw [hdrop]
    constructor
    · rintro ⟨name, hname⟩
      exact ⟨user.getD tmp 0 :: name, by rw [double_cons, hname]⟩
    · rintro ⟨name, hname⟩
      cases name with
      | nil => cases hname
      | cons b name => exact ⟨name, (List.cons.inj (List.cons.inj hname).2).2⟩

theorem take_halve {user : List UInt8} {left i : ℕ} (h : i + left ≤ user.length) :
    (halve left i user).take (i + left) =
      user.take i ++ (List.range left).map fun k => user.getD ((i + k) * 2 + 1) 0 := by
  induction left generalizing i user with
  | zero => simp [halve]
  | succ left ih =>
    have hlt : i < user.length := by omega
    have hset : ∀ k, i < k → (user.set i (user.getD (i * 2 + 1) 0)).getD k 0 = user.getD k 0 := by
      intro k hk
      rw [List.getD_eq_getElem?_getD, List.getElem?_set_ne (by omega), List.getD_eq_getElem?_getD]
    have hmap : (List.range left).map (fun k =>
        (user.set i (user.getD (i * 2 + 1) 0)).getD ((i + 1 + k) * 2 + 1) 0) =
        (List.range left).map fun k => user.getD ((i + (k + 1)) * 2 + 1) 0 := by
      refine List.map_congr_left fun k _ => ?_
      rw [hset _ (by omega), Nat.add_right_comm i 1 k, Nat.add_assoc]
    have htake : (user.set i (user.getD (i * 2 + 1) 0)).take (i + 1) =
        user.take i ++ [user.getD (i * 2 + 1) 0] := by
      rw [List.take_succ_eq_append_getElem (by simpa using hlt),
        List.take_set_of_le (Nat.le_refl i),
        List.getElem_set_self]
    rw [halve, show i + (left + 1) = i + 1 + left by omega, ih (by rw [List.length_set]; omega),
      htake,
      hmap, List.range_succ_eq_map, List.map_cons, List.map_map, List.append_assoc]
    rfl

theorem echoRemove_of_pairs (hne : user ≠ []) {tmp : ℕ}
    (htmp : tmp = if user.getD 0 0 = 32 then 1 else 0)
    {name : List UInt8} (hdrop : user.drop tmp = double name) :
    echoRemove user = (List.range (user.length / 2)).map fun k => user.getD (k * 2 + 1) 0 := by
  have hlen : 0 < user.length := List.length_pos_iff.2 hne
  have hle : tmp ≤ user.length := by
    rw [htmp]
    split <;> omega
  have hleft : echoLeft user (user.length - tmp) tmp = 0 :=
    (echoLeft_eq_zero_iff (by omega)).2 ⟨name, hdrop⟩
  have hhalve : (halve (user.length / 2) 0 user).take (0 + user.length / 2) = _ :=
    take_halve (by omega)
  rw [Nat.zero_add, List.take_zero, List.nil_append] at hhalve
  simp only [echoRemove, if_neg (Nat.ne_of_gt hlen), ← htmp, hleft, if_true, hhalve, Nat.zero_add]

def echoed (blank : Bool) (name : List UInt8) : List UInt8 :=
  (if blank then [32] else []) ++ double name

theorem echoRemove_echoed_iff {blank : Bool} :
    echoRemove (echoed blank name) = name ↔ blank = true ∨ name.head? ≠ some 32 := by
  cases blank with
  | true =>
    simp only [true_or, iff_true]
    have hechoed : echoed true name = 32 :: double name := rfl
    have htmp : 1 = if (32 :: double name).getD 0 0 = 32 then 1 else 0 := rfl
    have hdrop : (32 :: double name).drop 1 = double name := rfl
    rw [hechoed, echoRemove_of_pairs (List.cons_ne_nil _ _) htmp hdrop]
    have hhalf : (32 :: double name).length / 2 = name.length := by
      rw [List.length_cons, length_double]
      omega
    rw [hhalf]
    refine Eq.trans (List.map_congr_left fun k _ => ?_) (map_range_getD name)
    rw [List.getD_cons_succ, (getD_double name k).1]
  | false =>
    have hechoed : echoed false name = double name := rfl
    rw [hechoed]
    cases name with
    | nil => exact ⟨fun _ => .inr (by simp), fun _ => rfl⟩
    | cons b more =>
      simp only [Bool.false_eq_true, false_or, List.head?_cons, ne_eq, Option.some.injEq]
      by_cases hb : b = 32
      · refine ⟨fun h => ?_, fun h => absurd hb h⟩
        exfalso
        -- the first of the pairs is taken for the blank, and an odd number of characters is left
        have hodd : echoLeft (double (b :: more)) ((double (b :: more)).length - 1) 1 ≠ 0 := by
          rw [ne_eq, echoLeft_eq_zero_iff (by simp; omega)]
          rintro ⟨name, hname⟩
          have hlen := congrArg List.length hname
          simp only [double_cons, List.drop_succ_cons, List.drop_zero, List.length_cons,
            length_double] at hlen
          omega
        have hsame : echoRemove (double (b :: more)) = double (b :: more) := by
          simp only [echoRemove, length_double, List.length_cons, double_cons, List.getD_cons_zero,
            hb,
            if_true]
          simp only [double_cons, hb, List.length_cons, length_double] at hodd
          rw [if_neg (by omega), if_neg (by simpa [Nat.mul_add] using hodd)]
        have hlen := congrArg List.length (hsame.symm.trans h)
        rw [length_double, List.length_cons] at hlen
        omega
      · refine ⟨fun _ => hb, fun _ => ?_⟩
        have htmp : 0 = if (double (b :: more)).getD 0 0 = 32 then 1 else 0 := by
          rw [double_cons, List.getD_cons_zero, if_neg hb]
        have hne : double (b :: more) ≠ [] := List.cons_ne_nil _ _
        rw [echoRemove_of_pairs hne htmp List.drop_zero]
        have hhalf : (double (b :: more)).length / 2 = (b :: more).length := by
          rw [length_double]
          omega
        rw [hhalf]
        refine Eq.trans (List.map_congr_left fun k _ => ?_) (map_range_getD (b :: more))
        rw [(getD_double (b :: more) k).2]

end Echo

section Fields

variable {buf : List UInt8} {lgnPrefix : String} {first lgn i : ℕ}

def fieldAt (buf : List UInt8) (i : ℕ) : List UInt8 := (buf.drop i).takeWhile (· ≠ CR)

def fitted (field : List UInt8) : List UInt8 :=
  if TELNET_BUF_SIZE < field.length then field.take (TELNET_BUF_SIZE - 1) else field

theorem fieldAt_of_line {field rest : List UInt8} (hdrop : buf.drop i = field ++ CR :: rest)
    (hfield : CR ∉ field) : fieldAt buf i = field := by
  have hall : ∀ b ∈ field, decide (b ≠ CR) = true := fun b hb => by
    simpa using fun heq : b = CR => hfield (heq ▸ hb)
  rw [fieldAt, hdrop, List.takeWhile_append_of_pos hall, List.takeWhile_cons_of_neg (by simp),
    List.append_nil]

theorem exists_line (h : CR ∈ buf.drop i) :
    ∃ rest, buf.drop i = fieldAt buf i ++ CR :: rest ∧ CR ∉ fieldAt buf i := by
  obtain ⟨field, rest, hdrop, hfield⟩ := List.eq_append_cons_of_mem h
  rw [fieldAt_of_line hdrop hfield]
  exact ⟨rest, hdrop, hfield⟩

theorem strchr_of_mem (h : CR ∈ buf.drop i) :
    strchr buf i CR = some (i + (fieldAt buf i).length) := by
  obtain ⟨rest, hdrop, hfield⟩ := exists_line h
  exact strchr_of_field hdrop hfield

theorem copyField_fieldAt : copyField buf i (i + (fieldAt buf i).length) =
    if (fieldAt buf i).length = TELNET_BUF_SIZE then none else some (fitted (fieldAt buf i)) := by
  have htake : (buf.drop i).take (fieldAt buf i).length = fieldAt buf i :=
    List.prefix_iff_eq_take.1 (List.takeWhile_prefix _) |>.symm
  have hcut : ∀ n ≤ (fieldAt buf i).length, (buf.drop i).take n = (fieldAt buf i).take n := by
    intro n hn
    rw [← htake, List.take_take, Nat.min_eq_left hn]
  simp only [copyField, Nat.add_sub_cancel_left, fitted]
  rcases Nat.lt_trichotomy (fieldAt buf i).length TELNET_BUF_SIZE with hlt | heq | hgt
  · rw [if_neg (Nat.lt_asymm hlt), if_pos hlt, if_neg (Nat.ne_of_lt hlt), if_neg (Nat.lt_asymm hlt),
      htake]
  · simp [heq]
  · rw [if_pos hgt, if_pos (by decide), if_neg (Nat.ne_of_gt hgt), if_pos hgt,
      hcut _ (by rw [TELNET_BUF_SIZE] at hgt ⊢; omega)]

def AskedAt (buf : List UInt8) (lgn k : ℕ) : Prop :=
  IsLeast {k | lgn ≤ k ∧ occursAt buf "Password:" k = true} k ∧ CR ∈ buf.drop (k + 9)

theorem passwordParse_of_asked {k : ℕ} (h : AskedAt buf lgn k) : passwordParse buf lgn =
    if (fieldAt buf (k + 9)).length = TELNET_BUF_SIZE then none
    else some (fitted (fieldAt buf (k + 9))) := by
  have hfound : strcasestr buf lgn "Password:" = some k :=
    (strcasestr_eq_some_iff password_ne_nil).2 h.1
  simp only [passwordParse, hfound, strchr_of_mem h.2, copyField_fieldAt]

theorem passwordParse_of_not_asked (h : ¬ ∃ k, AskedAt buf lgn k) :
    passwordParse buf lgn = some [] := by
  rw [passwordParse]
  cases hfound : strcasestr buf lgn "Password:" with
  | none => rfl
  | some k =>
    have hline : CR ∉ buf.drop (k + 9) := fun hcr =>
      h ⟨k, (strcasestr_eq_some_iff password_ne_nil).1 hfound, hcr⟩
    simp only [strchr_eq_none_iff.2 hline]

theorem passwordParse_eq_none_iff : passwordParse buf lgn = none ↔
    ∃ k, AskedAt buf lgn k ∧ (fieldAt buf (k + 9)).length = TELNET_BUF_SIZE := by
  by_cases hasked : ∃ k, AskedAt buf lgn k
  · obtain ⟨k, hk⟩ := hasked
    rw [passwordParse_of_asked hk]
    constructor
    · intro h
      split at h
      · exact ⟨k, hk, ‹_›⟩
      · cases h
    · rintro ⟨k', hk', hlen⟩
      rw [hk'.1.unique hk.1] at hlen
      rw [if_pos hlen]
  · rw [passwordParse_of_not_asked hasked]
    exact ⟨fun h => absurd h (Option.some_ne_none _), fun ⟨k, hk, _⟩ => absurd ⟨k, hk⟩ hasked⟩

end Fields

section Safety

variable {buf : List UInt8} {lgnPrefix : String} {first lgn : ℕ}

theorem first_of_getLoginPrefix (h : getLoginPrefix buf = some lgnPrefix) :
    ∃ first, strcasestr buf 0 lgnPrefix = some first ∧
      IsLeast {k | occursAt buf lgnPrefix k = true} first := by
  obtain ⟨first, hfirst⟩ := Option.isSome_iff_exists.1 (List.find?_some (p := fun p =>
    (strcasestr buf 0 p).isSome) h)
  have hleast := (strcasestr_eq_some_iff (getLoginPrefix_ne_nil h)).1 hfirst
  exact ⟨first, hfirst, ⟨hleast.1.2, fun k hk => hleast.2 ⟨Nat.zero_le k, hk⟩⟩⟩

theorem loginParse_eq (hlgnPrefix : getLoginPrefix buf = some lgnPrefix)
    (hfirst : IsLeast {k | occursAt buf lgnPrefix k = true} first)
    (hlast : IsGreatest {j | Chosen buf lgnPrefix j} lgn) (hline : CR ∈ buf.drop first) :
    loginParse buf =
      let lgn := lgn + (bytesOf lgnPrefix).length
      if CR ∉ buf.drop lgn ∨ (fieldAt buf lgn).length = TELNET_BUF_SIZE then none
      else (passwordParse buf lgn).map (⟨echoRemove (fitted (fieldAt buf lgn)), ·⟩) := by
  obtain ⟨first', hfound, hfirst'⟩ := first_of_getLoginPrefix hlgnPrefix
  obtain rfl := hfirst.unique hfirst'
  have hgreatest := lastLogin_isGreatest (getLoginPrefix_ne_nil hlgnPrefix) hfirst
    (Nat.le_add_left buf.length first) (Nat.le_refl first) (kept_first hfirst)
  simp only [loginParse, hlgnPrefix, hfound, strchr_of_mem hline, Option.isSome_some, if_true,
    hgreatest.unique hlast]
  by_cases hcr : CR ∈ buf.drop (lgn + (bytesOf lgnPrefix).length)
  · rw [strchr_of_mem hcr, Option.bind_eq_bind, Option.bind_some, copyField_fieldAt]
    by_cases hlen : (fieldAt buf (lgn + (bytesOf lgnPrefix).length)).length = TELNET_BUF_SIZE
    · rw [if_pos hlen, if_pos (.inr hlen)]
      rfl
    · rw [if_neg hlen, if_neg (by tauto)]
      cases passwordParse buf (lgn + (bytesOf lgnPrefix).length) with
      | none => rfl
      | some password => rfl
  · rw [strchr_eq_none_iff.2 hcr, if_pos (.inl hcr)]
    rfl

/-- The name runs to the end of the text, or a field just fills its buffer. -/
def Overruns (buf : List UInt8) (lgn : ℕ) : Prop :=
  CR ∉ buf.drop lgn ∨ (fieldAt buf lgn).length = TELNET_BUF_SIZE ∨
    ∃ k, AskedAt buf lgn k ∧ (fieldAt buf (k + 9)).length = TELNET_BUF_SIZE

/-- The texts that make the parser leave its buffers. -/
theorem loginParse_overruns_iff (buf : List UInt8) :
    loginParse buf = none ↔ ∃ lgnPrefix first lgn, getLoginPrefix buf = some lgnPrefix ∧
      IsLeast {k | occursAt buf lgnPrefix k = true} first ∧ CR ∈ buf.drop first ∧
      IsGreatest {j | Chosen buf lgnPrefix j} lgn ∧
        Overruns buf (lgn + (bytesOf lgnPrefix).length) := by
  constructor
  · intro hnone
    cases hlgnPrefix : getLoginPrefix buf with
    | none =>
      simp only [loginParse, hlgnPrefix] at hnone
      cases hnone
    | some lgnPrefix =>
      obtain ⟨first, hfound, hfirst⟩ := first_of_getLoginPrefix hlgnPrefix
      have hlast := lastLogin_isGreatest (getLoginPrefix_ne_nil hlgnPrefix) hfirst
        (Nat.le_add_left buf.length first) (Nat.le_refl first) (kept_first hfirst)
      by_cases hline : CR ∈ buf.drop first
      · refine ⟨lgnPrefix, first, _, rfl, hfirst, hline, hlast, ?_⟩
        rw [loginParse_eq hlgnPrefix hfirst hlast hline] at hnone
        dsimp only at hnone
        split at hnone
        · rename_i hover
          exact hover.imp_right .inl
        · exact .inr (.inr (passwordParse_eq_none_iff.1 (Option.map_eq_none_iff.1 hnone)))
      · simp only [loginParse, hlgnPrefix, hfound, strchr_eq_none_iff.2 hline,
          Option.isSome_none] at hnone
        cases hnone
  · rintro ⟨lgnPrefix, first, lgn, hlgnPrefix, hfirst, hline, hlast, hover⟩
    rw [loginParse_eq hlgnPrefix hfirst hlast hline]
    dsimp only
    rw [Overruns, ← or_assoc] at hover
    rcases hover with hname | hpassword
    · rw [if_pos hname]
    · rw [passwordParse_eq_none_iff.2 hpassword]
      split <;> rfl

end Safety

structure TelnetLogin where
  banner : List UInt8
  prompt : String
  /-- Whether there is a blank behind the prompt. -/
  blank : Bool
  name : List UInt8
  between : List UInt8
  password : List UInt8
  session : List UInt8

namespace TelnetLogin

def text (d : TelnetLogin) : List UInt8 :=
  d.banner ++ (bytesOf d.prompt ++ (echoed d.blank d.name ++ CR :: (d.between ++
    (bytesOf "Password:" ++ (d.password ++ CR :: d.session)))))

def nameAt (d : TelnetLogin) : ℕ := d.banner.length + (bytesOf d.prompt).length

def askedAt (d : TelnetLogin) : ℕ :=
  d.nameAt + ((echoed d.blank d.name).length + (d.between.length + 1))

/-- The prompt is the one that counts, and it is the password that is asked for next. -/
structure Prompted (d : TelnetLogin) : Prop where
  prefixed : getLoginPrefix d.text = some d.prompt
  last : IsGreatest {j | Chosen d.text d.prompt j} d.banner.length
  asked : IsLeast {k | d.nameAt ≤ k ∧ occursAt d.text "Password:" k = true} d.askedAt
  name_line : CR ∉ d.name
  password_line : CR ∉ d.password

structure Fits (d : TelnetLogin) : Prop where
  name : (echoed d.blank d.name).length < TELNET_BUF_SIZE
  password : d.password.length < TELNET_BUF_SIZE

variable {d : TelnetLogin}

theorem drop_banner (d : TelnetLogin) : d.text.drop d.banner.length =
    bytesOf d.prompt ++ (echoed d.blank d.name ++ CR :: (d.between ++
      (bytesOf "Password:" ++ (d.password ++ CR :: d.session)))) := by
  rw [text, List.drop_left]

theorem drop_nameAt (d : TelnetLogin) : d.text.drop d.nameAt =
    echoed d.blank d.name ++ CR :: (d.between ++
      (bytesOf "Password:" ++ (d.password ++ CR :: d.session))) := by
  rw [nameAt, ← List.drop_drop, drop_banner, List.drop_left]

theorem drop_askedAt (d : TelnetLogin) :
    d.text.drop (d.askedAt + 9) = d.password ++ CR :: d.session := by
  have hword : (bytesOf "Password:").length = 9 := by decide
  rw [askedAt, Nat.add_assoc, ← List.drop_drop, drop_nameAt, Nat.add_assoc, ← List.drop_drop,
    List.drop_left, Nat.add_assoc, Nat.add_comm 1, ← Nat.add_assoc, List.drop_succ_cons,
    ← List.drop_drop, List.drop_left, ← hword, List.drop_left]

theorem echoed_line {blank : Bool} {name : List UInt8} (h : CR ∉ name) :
    CR ∉ echoed blank name := by
  rw [echoed, List.mem_append, mem_double, not_or]
  refine ⟨?_, h⟩
  cases blank
  · exact List.not_mem_nil
  · decide

theorem Fits.fitted {field : List UInt8} (h : field.length < TELNET_BUF_SIZE) :
    Telnet.fitted field = field :=
  if_neg (Nat.lt_asymm h)

theorem loginParse_text (h : d.Prompted) (hfits : d.Fits) :
    loginParse d.text = some ⟨echoRemove (echoed d.blank d.name), d.password⟩ := by
  obtain ⟨first, -, hfirst⟩ := first_of_getLoginPrefix h.prefixed
  have hname : fieldAt d.text d.nameAt = echoed d.blank d.name :=
    fieldAt_of_line d.drop_nameAt (echoed_line h.name_line)
  have hpassword : fieldAt d.text (d.askedAt + 9) = d.password :=
    fieldAt_of_line d.drop_askedAt h.password_line
  have hline : CR ∈ d.text.drop d.nameAt := by simp [drop_nameAt]
  have hfirstLine : CR ∈ d.text.drop first := by
    have hle : first ≤ d.nameAt := (hfirst.2 h.last.1.occurs).trans (Nat.le_add_right _ _)
    rw [← Nat.sub_add_cancel hle, Nat.add_comm, ← List.drop_drop] at hline
    exact List.mem_of_mem_drop hline
  have hasked : AskedAt d.text d.nameAt d.askedAt := ⟨h.asked, by simp [drop_askedAt]⟩
  have hover :
      ¬ (CR ∉ d.text.drop d.nameAt ∨ (fieldAt d.text d.nameAt).length = TELNET_BUF_SIZE) := by
    rw [hname]
    exact not_or.2 ⟨not_not.2 hline, Nat.ne_of_lt hfits.name⟩
  rw [loginParse_eq h.prefixed hfirst h.last hfirstLine]
  dsimp only
  rw [← nameAt, if_neg hover, passwordParse_of_asked hasked, hpassword,
    if_neg (Nat.ne_of_lt hfits.password), hname, Fits.fitted hfits.name, Fits.fitted hfits.password]
  rfl

end TelnetLogin

def loginText (content : List UInt8) : List UInt8 :=
  (content.take TELNET_LOGIN_SIZE).takeWhile (· ≠ 0)

theorem zero_not_mem_convertZerosFrom (before : Option UInt8) (data : List UInt8) :
    0 ∉ convertZerosFrom before data := by
  induction data generalizing before with
  | nil => exact List.not_mem_nil
  | cons b rest ih =>
    rw [convertZerosFrom, List.mem_cons, not_or]
    refine ⟨?_, ih _⟩
    split
    · split <;> decide
    · exact fun h => absurd h.symm ‹_›

theorem zero_not_mem_contentFile (pieces : List Segment) : 0 ∉ contentFile pieces := by
  rw [contentFile, List.mem_flatMap]
  rintro ⟨seg, -, hmem⟩
  simp only [doContentProcess] at hmem
  split at hmem
  · exact List.not_mem_nil hmem
  · split at hmem
    · exact zero_not_mem_convertZerosFrom none _ hmem
    · exact List.not_mem_nil hmem

theorem loginText_contentFile (pieces : List Segment) :
    loginText (contentFile pieces) = (contentFile pieces).take TELNET_LOGIN_SIZE := by
  refine List.takeWhile_eq_self_iff.2 fun b hb => ?_
  rw [decide_eq_true_eq]
  rintro rfl
  exact zero_not_mem_contentFile pieces (List.mem_of_mem_take hb)

end CloudHands.Telnet
