import HidraNet.Core.NodeRecord
import HidraNet.Issuer.Orders

/-!
# Prices

A pack's price as the operator writes it, in whole tokens or in dollars, and the amount an order is opened at: the price
and a random tag of at most `tagSpace` raw units.

The tag keeps below a whole token and the amount below `2 ^ 64` just where what is drawn leaves room for it
(`Orders.opens_iff`): a token without decimals has no tag, and the last whole token under `2 ^ 64` may not hold it.
-/

namespace HidraNet.Issuer

open HidraNet.Core Ints Net Text
open Redemption (ensure)

def MAX_DECIMALS : Nat := 18

/-! ### Packs as the operator writes them -/

/-- `str::parse::<u64>`. -/
def parseU64 (l : List Char) : Option Nat := parseUnsigned (2 ^ 64 - 1) l

/-- A decimal amount as raw units. -/
def amountFromString (s : String) (decimals : Nat) : Except String Nat := do
  ensure (decimals ≤ MAX_DECIMALS) (s!"a token with {decimals} decimals; no amount is read with more than {MAX_DECIMALS}")
  let s := trim s
  let (whole, frac) := (splitOnce '.' s.toList).getD (s.toList, [])
  ensure (¬ (whole = [] ∧ frac = [])) (debug s ++ " is not an amount")
  ensure (whole.all Char.isDigit ∧ frac.all Char.isDigit) (debug s ++ " is not an amount")
  ensure (frac.length ≤ decimals)
    (debug s ++ " has more than " ++ toString decimals ++ " decimals, which the token does not have")
  let whole ← (if whole = [] then some 0 else parseU64 whole).elim
    (.error (debug s ++ " is too large an amount")) .ok
  -- the fraction has at most eighteen digits, and so is below `10 ^ decimals` once it is scaled
  let fracRaw ← (if frac = [] then some 0 else parseU64 frac).elim
    (.error "number too large to fit in target type") .ok
  let raw := whole * 10 ^ decimals + fracRaw * 10 ^ (decimals - frac.length)
  ensure (raw < 2 ^ 64) (debug s ++ " is too large an amount")
  return raw

inductive Price where
  | tokens (priceRaw : Nat)
  | usd (cents : Nat)
deriving DecidableEq

/-- A pack as the operator sets it. -/
structure PackSpec where
  passes : Nat
  price : Price
deriving DecidableEq

namespace PackSpec

def dollars (price : List Char) : Option (List Char) :=
  if price.head? = some '$' then some price.tail
  else (["usd", "USD", " USD", " usd"] : List String).findSome? fun sign => stripSuffix sign.toList price

/-- `PASSES=PRICE`. -/
def parse (spec : String) (decimals : Nat) : Except String PackSpec := do
  let shape := "a pack is PASSES=PRICE, such as 10=50 or 150=5.99usd; got " ++ debug spec
  let (passes, price) ← (splitOnce '=' (trim spec).toList).elim (.error shape) .ok
  let passes ← (parseUnsigned u32Max (trim (String.ofList passes)).toList).elim (.error shape) .ok
  ensure (¬ (passes = 0 ∨ passes > 10000)) ("a pack holds 1 to 10000 passes; got " ++ debug spec)
  let price := (trim (String.ofList price)).toList
  match dollars price with
  | some d =>
    let cents ← context (amountFromString (String.ofList d) 2)
      ("a price in dollars is like 5.99usd; got " ++ debug spec)
    ensure (cents ≠ 0) ("a pack's price is more than nothing; got " ++ debug spec)
    return ⟨passes, .usd cents⟩
  | none =>
    let priceRaw ← amountFromString (String.ofList price) decimals
    ensure (¬ (priceRaw = 0 ∨ priceRaw % 10 ^ decimals ≠ 0))
      ("a pack's price is a whole number of tokens, 1 or more, or dollars like 5.99usd; got " ++ debug spec)
    return ⟨passes, .tokens priceRaw⟩

/-- The pack at the going rate, by which `tokensForUsd` turns cents into raw units. -/
def atRate (p : PackSpec) (tokensForUsd : Nat → Option Nat) : Option Pack :=
  match p.price with
  | .tokens priceRaw => some ⟨p.passes, priceRaw⟩
  | .usd cents => (tokensForUsd cents).map fun priceRaw => ⟨p.passes, priceRaw⟩

end PackSpec

/-- The decimals that `Payments::new` takes. -/
def checkDecimals (decimals : Nat) : Except String Unit :=
  if decimals > 12 then .error "--pay-decimals is 0 to 12" else .ok ()

theorem amountFromString_lt {s : String} {decimals raw : Nat} (h : amountFromString s decimals = .ok raw) :
    raw < 2 ^ 64 := by
  unfold amountFromString at h
  obtain ⟨_, -, h⟩ := ok_of_bind h
  obtain ⟨_, -, h⟩ := ok_of_bind h
  obtain ⟨_, -, h⟩ := ok_of_bind h
  obtain ⟨_, -, h⟩ := ok_of_bind h
  obtain ⟨whole, -, h⟩ := ok_of_bind h
  obtain ⟨fracRaw, -, h⟩ := ok_of_bind h
  obtain ⟨_, hfits, h⟩ := ok_of_bind h
  obtain rfl := Except.ok.inj h
  exact of_ensure hfits

theorem PackSpec.parse_tokens {spec : String} {decimals priceRaw : Nat} {p : PackSpec} (h : parse spec decimals = .ok p)
    (hp : p.price = .tokens priceRaw) : priceRaw < 2 ^ 64 ∧ priceRaw ≠ 0 ∧ 10 ^ decimals ∣ priceRaw := by
  unfold parse at h
  obtain ⟨⟨passes, price⟩, -, h⟩ := ok_of_bind h
  obtain ⟨passes, -, h⟩ := ok_of_bind h
  obtain ⟨_, -, h⟩ := ok_of_bind h
  dsimp only at h
  split at h
  · obtain ⟨cents, -, h⟩ := ok_of_bind h
    obtain ⟨_, -, h⟩ := ok_of_bind h
    obtain rfl := Except.ok.inj h
    cases hp
  · obtain ⟨raw, hraw, h⟩ := ok_of_bind h
    obtain ⟨_, hwhole, h⟩ := ok_of_bind h
    obtain rfl := Except.ok.inj h
    obtain rfl := Price.tokens.inj hp
    have hwhole := of_ensure hwhole
    rw [not_or, not_not] at hwhole
    exact ⟨amountFromString_lt hraw, hwhole.1, Nat.dvd_of_mod_eq_zero hwhole.2⟩

/-! ### Opening an order -/

namespace Orders

variable {o : Orders} {priceRaw decimals : Nat} {now : Int}

def tag (decimals raw : Nat) : Nat := raw % tagSpace decimals + 1

def has (o : Orders) (amountRaw : Nat) (now : Int) : Bool := o.orders.any fun x => x.openAt now && x.amountRaw == amountRaw

/-- `freeAmount` as a build that checks its sums has it. -/
def freeAmountChecked (o : Orders) (priceRaw space : Nat) (now : Int) : List (Option Nat) → Drawn
  | [] => .noneFree
  | none :: _ => .noneFree
  | some raw :: raws =>
    if space = 0 then .panicked
    else
      let amountRaw := priceRaw + (raw % space + 1)
      if 2 ^ 64 ≤ amountRaw then .panicked
      else if o.has amountRaw now then freeAmountChecked o priceRaw space now raws
      else .amount amountRaw

/-- `openOrder` as a build that checks its sums has it. -/
def openChecked (o : Orders) (hash : Hash) (pack : Pack) (now : Int) (decimals : Nat) (raws : Nat → Option Nat) : Opened :=
  let o := o.prune now
  match o.room hash now with
  | some full => .refused full
  | none =>
    match o.freeAmountChecked pack.priceRaw (tagSpace decimals) now ((List.range 64).map raws) with
    | .panicked => .panicked
    | .noneFree => .refused .issuer
    | .amount amountRaw => .order ⟨hash, pack.passes, amountRaw, now, none, 0, true⟩

/-- No division by zero and no sum that overflows, and an amount above the price and below a whole token more. -/
def Opens (o : Orders) (hash : Hash) (pack : Pack) (now : Int) (decimals : Nat) (raws : Nat → Option Nat) : Prop :=
  o.openChecked hash pack now decimals raws ≠ .panicked ∧
  (o.openOrder hash pack now decimals raws).2 = o.openChecked hash pack now decimals raws ∧
  ∀ order, (o.openOrder hash pack now decimals raws).2 = .order order →
    pack.priceRaw < order.amountRaw ∧ order.amountRaw < pack.priceRaw + 10 ^ decimals ∧
      pack.priceRaw = order.amountRaw / 10 ^ decimals * 10 ^ decimals

def Draws (o : Orders) (priceRaw : Nat) (now : Int) (decimals : Nat) (raws : Nat → Option Nat) (k : Nat) : Prop :=
  (raws k).isSome ∧ ∀ j < k, (raws j).any fun raw => o.has (priceRaw + tag decimals raw) now

def LeavesRoom (o : Orders) (priceRaw : Nat) (now : Int) (decimals : Nat) (raws : Nat → Option Nat) : Prop :=
  ∀ k < 64, o.Draws priceRaw now decimals raws k →
    decimals ≠ 0 ∧ ∀ raw, raws k = some raw → priceRaw + tag decimals raw < 2 ^ 64

theorem tagSpace_eq_zero : tagSpace decimals = 0 ↔ decimals = 0 := by
  unfold tagSpace TAG_DIGITS
  constructor
  · intro h
    by_contra hne
    have hpow : 10 ^ 1 ≤ 10 ^ min 5 decimals := Nat.pow_le_pow_right (by decide) (by omega)
    omega
  · rintro rfl
    rfl

theorem tag_lt (h : decimals ≠ 0) (raw : Nat) : tag decimals raw < 10 ^ decimals := by
  have hspace : tagSpace decimals ≠ 0 := fun hzero => h (tagSpace_eq_zero.1 hzero)
  have hmod := Nat.mod_lt raw (Nat.pos_of_ne_zero hspace)
  have hpow : 10 ^ min TAG_DIGITS decimals ≤ 10 ^ decimals := Nat.pow_le_pow_right (by decide) (Nat.min_le_right _ _)
  unfold tag
  unfold tagSpace at hmod hspace ⊢
  omega

theorem freeAmountChecked_panicked (raws : Nat → Option Nat) (n k : Nat)
    (hbefore : ∀ j < k, (raws j).any fun raw => o.has (priceRaw + tag decimals raw) now) :
    o.freeAmountChecked priceRaw (tagSpace decimals) now ((List.range' k n).map raws) ≠ .panicked ↔
      ∀ j, k ≤ j → j < k + n → o.Draws priceRaw now decimals raws j →
        decimals ≠ 0 ∧ ∀ raw, raws j = some raw → priceRaw + tag decimals raw < 2 ^ 64 := by
  induction n generalizing k with
  | zero =>
    refine ⟨fun _ j hle hlt => by omega, fun _ => by nofun⟩
  | succ n ih =>
    rw [List.range'_succ, List.map_cons]
    -- the draws from `j` on are looked at only if the draw at `k` gave an amount that is taken
    have hlast {j : Nat} (hkj : k < j) (hdraws : o.Draws priceRaw now decimals raws j) :
        ∃ raw, raws k = some raw ∧ o.has (priceRaw + tag decimals raw) now := by
      simpa [Option.any_eq_true] using hdraws.2 k hkj
    cases hraw : raws k with
    | none =>
      refine ⟨fun _ j hle hlt hdraws => ?_, fun _ => by nofun⟩
      obtain rfl | hkj := Nat.eq_or_lt_of_le hle
      · have hsome := hdraws.1
        rw [hraw] at hsome
        cases hsome
      · obtain ⟨raw, hk, -⟩ := hlast hkj hdraws
        rw [hraw] at hk
        cases hk
    | some raw =>
      have hdraw : o.Draws priceRaw now decimals raws k := ⟨by rw [hraw]; rfl, hbefore⟩
      have hhere (h : ∀ j, k ≤ j → j < k + (n + 1) → o.Draws priceRaw now decimals raws j →
          decimals ≠ 0 ∧ ∀ raw, raws j = some raw → priceRaw + tag decimals raw < 2 ^ 64) :
          decimals ≠ 0 ∧ priceRaw + tag decimals raw < 2 ^ 64 := by
        obtain ⟨hne, hroom⟩ := h k le_rfl (by omega) hdraw
        exact ⟨hne, hroom raw hraw⟩
      unfold freeAmountChecked
      by_cases hzero : tagSpace decimals = 0
      · rw [if_pos hzero]
        refine ⟨fun h => absurd rfl h, fun h => absurd (tagSpace_eq_zero.1 hzero) (hhere h).1⟩
      · rw [if_neg hzero]
        have hne : decimals ≠ 0 := fun h => hzero (tagSpace_eq_zero.2 h)
        dsimp only
        by_cases hover : 2 ^ 64 ≤ priceRaw + tag decimals raw
        · rw [if_pos (by exact hover)]
          refine ⟨fun h => absurd rfl h, fun h => absurd (hhere h).2 (by omega)⟩
        · rw [if_neg (by exact hover)]
          by_cases htaken : o.has (priceRaw + tag decimals raw) now
          · rw [if_pos (by exact htaken), ih (k + 1)]
            · refine ⟨fun h j hle hlt hdraws => ?_, fun h j hle hlt => h j (by omega) (by omega)⟩
              obtain rfl | hkj := Nat.eq_or_lt_of_le hle
              · refine ⟨hne, fun raw' hraw' => ?_⟩
                obtain rfl := Option.some.inj (hraw.symm.trans hraw')
                omega
              · exact h j (by omega) (by omega) hdraws
            · intro j hj
              obtain rfl | hlt := Nat.eq_or_lt_of_le (Nat.le_of_lt_succ hj)
              · rw [hraw]
                exact htaken
              · exact hbefore j hlt
          · rw [if_neg (by exact htaken)]
            refine ⟨fun _ j hle hlt hdraws => ?_, fun _ => by nofun⟩
            obtain rfl | hkj := Nat.eq_or_lt_of_le hle
            · refine ⟨hne, fun raw' hraw' => ?_⟩
              obtain rfl := Option.some.inj (hraw.symm.trans hraw')
              omega
            · obtain ⟨raw', hk, htaken'⟩ := hlast hkj hdraws
              obtain rfl := Option.some.inj (hraw.symm.trans hk)
              exact absurd htaken' htaken

theorem freeAmount_checked {space : Nat} {raws : List (Option Nat)}
    (h : o.freeAmountChecked priceRaw space now raws ≠ .panicked) :
    o.freeAmount priceRaw space now raws = o.freeAmountChecked priceRaw space now raws := by
  induction raws with
  | nil => rfl
  | cons raw raws ih =>
    cases raw with
    | none => rfl
    | some raw =>
      unfold freeAmountChecked at h ⊢
      unfold freeAmount
      by_cases hzero : space = 0
      · rw [if_pos hzero, if_pos hzero]
      · rw [if_neg hzero] at h ⊢
        rw [if_neg hzero]
        dsimp only at h ⊢
        by_cases hover : 2 ^ 64 ≤ priceRaw + (raw % space + 1)
        · rw [if_pos hover] at h
          exact absurd rfl h
        · have hwrap : wrap64 (priceRaw + (raw % space + 1)) = priceRaw + (raw % space + 1) :=
            Nat.mod_eq_of_lt (by omega)
          rw [if_neg hover] at h ⊢
          rw [hwrap]
          change (if o.has _ now then _ else _) = _
          by_cases htaken : o.has (priceRaw + (raw % space + 1)) now
          · rw [if_pos htaken] at h ⊢
            rw [if_pos htaken]
            exact ih h
          · rw [if_neg htaken, if_neg htaken]

theorem freeAmountChecked_amount {raws : List (Option Nat)} {amountRaw : Nat}
    (h : o.freeAmountChecked priceRaw (tagSpace decimals) now raws = .amount amountRaw) :
    decimals ≠ 0 ∧ ∃ raw, amountRaw = priceRaw + tag decimals raw := by
  induction raws with
  | nil => cases h
  | cons raw raws ih =>
    cases raw with
    | none => cases h
    | some raw =>
      unfold freeAmountChecked at h
      split_ifs at h with hzero
      dsimp only at h
      split_ifs at h
      · exact ih h
      · exact ⟨fun hdecimals => hzero (tagSpace_eq_zero.2 hdecimals), raw, (Drawn.amount.inj h).symm⟩

theorem leavesRoom_iff (o : Orders) (priceRaw : Nat) (now : Int) (decimals : Nat) (raws : Nat → Option Nat) :
    o.freeAmountChecked priceRaw (tagSpace decimals) now ((List.range 64).map raws) ≠ .panicked ↔
      o.LeavesRoom priceRaw now decimals raws := by
  rw [List.range_eq_range', freeAmountChecked_panicked raws 64 0 (by omega)]
  unfold LeavesRoom
  exact forall_congr' fun k => by simp

theorem round_tag {raw : Nat} (hne : decimals ≠ 0) (hwhole : 10 ^ decimals ∣ priceRaw) :
    priceRaw = (priceRaw + tag decimals raw) / 10 ^ decimals * 10 ^ decimals := by
  obtain ⟨tokens, rfl⟩ := hwhole
  rw [Nat.mul_add_div (by positivity), Nat.div_eq_of_lt (tag_lt hne raw), Nat.add_zero, Nat.mul_comm]

/-- An order is opened at the price and a tag, unless the book is full or a tag that is drawn has no room. -/
theorem opens_iff (o : Orders) (hash : Hash) (spec : String) (p : PackSpec) (pack : Pack)
    (tokensForUsd : Nat → Option Nat) (priceRaw : Nat) (now : Int) (decimals : Nat) (raws : Nat → Option Nat)
    (hparse : PackSpec.parse spec decimals = .ok p) (hprice : p.price = .tokens priceRaw)
    (hpack : p.atRate tokensForUsd = some pack) :
    o.Opens hash pack now decimals raws ↔
      (o.prune now).room hash now ≠ none ∨ (o.prune now).LeavesRoom pack.priceRaw now decimals raws := by
  obtain ⟨-, -, hwhole⟩ := PackSpec.parse_tokens hparse hprice
  unfold PackSpec.atRate at hpack
  rw [hprice] at hpack
  obtain rfl := Option.some.inj hpack
  rw [← leavesRoom_iff]
  unfold Opens openChecked openOrder
  dsimp only
  cases hroom : (o.prune now).room hash now with
  | some full => simp
  | none =>
    dsimp only
    constructor
    · rintro ⟨hchecked, -, -⟩
      refine .inr fun hpanicked => hchecked ?_
      rw [hpanicked]
    · intro h
      have hpanicked := h.resolve_left (by simp)
      rw [freeAmount_checked hpanicked]
      cases hdrawn : (o.prune now).freeAmountChecked priceRaw (tagSpace decimals) now ((List.range 64).map raws) with
      | panicked => exact absurd hdrawn hpanicked
      | noneFree => exact ⟨by simp, rfl, by simp⟩
      | amount amountRaw =>
        obtain ⟨hne, raw, rfl⟩ := freeAmountChecked_amount hdrawn
        refine ⟨by simp, rfl, fun order horder => ?_⟩
        obtain rfl := Opened.order.inj horder
        have htag := tag_lt hne raw
        have hpos : 0 < tag decimals raw := Nat.succ_pos _
        exact ⟨by dsimp only; omega, by dsimp only; omega, round_tag hne hwhole⟩

/-- A pack of one token without decimals. -/
theorem not_opens : ¬ ∀ (decimals : Nat) (spec : String) (p : PackSpec) (priceRaw : Nat) (o : Orders) (hash : Hash)
    (now : Int) (raws : Nat → Option Nat), checkDecimals decimals = .ok () → PackSpec.parse spec decimals = .ok p →
      p.price = .tokens priceRaw → o.Opens hash ⟨p.passes, priceRaw⟩ now decimals raws := by
  intro h
  have hopens := h 0 "10=1" ⟨10, .tokens 1⟩ 1 .empty "" 0 (fun _ => some 0) rfl (by decide) rfl
  exact hopens.1 (by decide)

/-- Fifty tokens of six decimals. -/
theorem opens_fifty :
    PackSpec.parse "10=50" 6 = .ok ⟨10, .tokens 50000000⟩ ∧
      Orders.empty.Opens "" ⟨10, 50000000⟩ 0 6 fun _ => some 4212 :=
  ⟨by decide, (opens_iff .empty "" "10=50" ⟨10, .tokens 50000000⟩ ⟨10, 50000000⟩ (fun _ => none) 50000000 0 6 _
    (by decide) rfl rfl).2 (.inr fun k hk hdraws => ⟨by decide, fun raw hraw => by
      obtain rfl := Option.some.inj hraw
      decide⟩)⟩

end Orders

end HidraNet.Issuer
