import HidraNet.Crypto.Keystore
import HidraNet.Lib.Base64
import HidraNet.Lib.Runs

/-!
# Keys that survive a crash

After every run of the node or of its service that is not cut within the write of a secret, nor between the two secrets
of a new node (`Whole`), the next run has the keys that the runs before it returned (`identity_run`).  A run that is cut
as it opens the first secret leaves an empty file, and no run has keys from then on (`emptied`).
-/

namespace HidraNet.Keystore

open Text Utf8 Runs

/-- What the libraries do with the secrets. -/
structure Documented (lib : Lib) : Prop where
  fromBase64 (bytes : Bytes) : lib.fromBase64 (lib.base64 bytes) = some bytes
  /-- Letters, digits, `+`, `/` and `=`. -/
  written (bytes : Bytes) : ∀ c ∈ lib.base64 bytes, Base64.written c
  /-- What is encrypted is as much longer as its tag, and is decrypted with its key and nonce. -/
  encrypt (key : Bytes) (nonce : Sized 24) (k : Sized 32) :
    ∃ ciphertext, lib.encrypt key nonce (encode (lib.base64 k.1)) = some ciphertext ∧ 16 ≤ ciphertext.length ∧
      lib.decrypt key nonce ciphertext = some (encode (lib.base64 k.1))

variable {lib : Lib}

/-! ### Texts without white space -/

theorem dropWhile_eq_self {text : Text} (h : ∀ c ∈ text, isWhitespace c = false) : text.dropWhile isWhitespace = text := by
  rw [List.dropWhile_eq_self_iff]
  intro hlen
  rw [h _ (List.getElem_mem hlen)]
  decide

private theorem trimmed_eq_self {text : Text} (h : ∀ c ∈ text, isWhitespace c = false) : trimmed text = text := by
  unfold trimmed trim
  rw [String.toList_ofList, String.toList_ofList, dropWhile_eq_self h,
    dropWhile_eq_self fun c hc => h c (List.mem_reverse.1 hc), List.reverse_reverse]

private theorem not_white_of_written {c : Char} (h : Base64.written c) : isWhitespace c = false := by
  unfold Base64.written at h
  simp only [Bool.or_eq_true, beq_iff_eq] at h
  rcases h with ((h | rfl) | rfl) | rfl
  · have hrange : 48 ≤ c.val.toNat ∧ c.val.toNat ≤ 122 := by
      simp only [Char.isAlphanum, Char.isAlpha, Char.isUpper, Char.isLower, Char.isDigit, Bool.or_eq_true,
        Bool.and_eq_true, decide_eq_true_eq, ge_iff_le, UInt32.le_iff_toNat_le] at h
      change ((65 ≤ c.val.toNat ∧ c.val.toNat ≤ 90) ∨ (97 ≤ c.val.toNat ∧ c.val.toNat ≤ 122)) ∨
        (48 ≤ c.val.toNat ∧ c.val.toNat ≤ 57) at h
      omega
    unfold isWhitespace
    simp only [List.mem_cons, List.not_mem_nil, or_false, Bool.or_eq_false_iff, decide_eq_false_iff_not,
      Bool.and_eq_false_iff, UInt32.le_iff_toNat_le, ← UInt32.toNat_inj]
    simp only [UInt32.reduceToNat]
    omega
  · decide
  · decide
  · decide

private theorem encode_plain (hlib : Documented lib) (bytes : Bytes) : ∀ c ∈ lib.base64 bytes, isWhitespace c = false :=
  fun c hc => not_white_of_written (hlib.written bytes c hc)

/-! ### What is stored -/

/-- The contents of a file that has a secret: in the clear, or sealed under the passphrase. -/
inductive Stores (lib : Lib) (p : Option Text) (k : Sized 32) : Bytes → Prop
  | clear : Stores lib p k (encode (lib.base64 k.1))
  | locked (passphrase : Text) (d : SealDraws) (text : Text) : p = some passphrase →
    sealUnder lib passphrase d (encode (lib.base64 k.1)) = .ok text → Stores lib p k (encode text)

private theorem trimmed_lossy (hlib : Documented lib) (k : Bytes) :
    trimmed (lossy (encode (lib.base64 k))) = lib.base64 k := by
  rw [lossy_encode, trimmed_eq_self (encode_plain hlib k)]

private theorem secretBytes_encode (hlib : Documented lib) (kind : String) (k : Sized 32) :
    secretBytes lib kind (encode (lib.base64 k.1)) = .ok k.1 := by
  unfold secretBytes
  rw [trimmed_lossy hlib, hlib.fromBase64]
  dsimp only
  rw [if_neg (not_not.2 k.2)]

private theorem not_isSealed (hlib : Documented lib) (k : Bytes) : isSealed (lib.base64 k) = false := by
  unfold isSealed trimStart
  rw [dropWhile_eq_self (encode_plain hlib k)]
  by_contra h
  rw [Bool.not_eq_false, List.isPrefixOf_iff_prefix] at h
  have hcolon : ':' ∈ lib.base64 k := h.subset (by decide)
  exact absurd (hlib.written k _ hcolon) (by decide)

private theorem locked_plain (hlib : Documented lib) (bytes : Bytes) :
    ∀ c ∈ magic ++ lib.base64 bytes, isWhitespace c = false := by
  intro c hc
  have hmagic : magic.all (fun c => !isWhitespace c) = true := by decide
  obtain hc | hc := List.mem_append.1 hc
  · simpa using List.all_eq_true.1 hmagic c hc
  · exact encode_plain hlib bytes c hc

theorem isSealed_magic (hlib : Documented lib) (bytes : Bytes) : isSealed (magic ++ lib.base64 bytes) = true := by
  unfold isSealed trimStart
  rw [dropWhile_eq_self (locked_plain hlib bytes), List.isPrefixOf_iff_prefix]
  exact List.prefix_append _ _

private theorem unsealUnder_sealUnder (hlib : Documented lib) {passphrase text : Text} {d : SealDraws} {k : Sized 32}
    (h : sealUnder lib passphrase d (encode (lib.base64 k.1)) = .ok text) :
    (isSealed text = true) ∧ unsealUnder lib passphrase text = .ok (encode (lib.base64 k.1)) := by
  obtain ⟨ciphertext, hencrypt, hlength, hdecrypt⟩ := hlib.encrypt (lib.derive passphrase d.salt) d.nonce k
  unfold sealUnder at h
  rw [hencrypt] at h
  obtain rfl := Except.ok.inj h
  refine ⟨isSealed_magic hlib _, ?_⟩
  have hsalt := d.salt.2
  have hnonce := d.nonce.2
  unfold unsealUnder
  rw [trimmed_eq_self (locked_plain hlib _), List.isPrefixOf_iff_prefix.2 (List.prefix_append _ _), List.drop_left]
  dsimp only
  rw [trimmed_eq_self (encode_plain hlib _), hlib.fromBase64]
  dsimp only
  rw [if_neg (by simp only [List.length_append]; omega), List.append_assoc, List.take_left' hsalt,
    List.drop_left' hsalt, List.take_left' hnonce]
  have hdrop : (d.salt.1 ++ (d.nonce.1 ++ ciphertext)).drop 40 = ciphertext := by
    rw [← List.append_assoc]
    exact List.drop_left' (by rw [List.length_append, hsalt, hnonce])
  rw [hdrop, hdecrypt]

private theorem readSecret_stores (hlib : Documented lib) {disk : Disk} {p : Option Text} {k : Sized 32} {f : File}
    {contents : Bytes} (hf : disk f = some contents) (h : Stores lib p k contents) :
    ∃ needs, readSecret lib disk p f = .ok ⟨encode (lib.base64 k.1), needs⟩ := by
  unfold readSecret
  rw [hf]
  cases h with
  | clear =>
    refine ⟨p.isSome, ?_⟩
    dsimp only
    rw [fromUtf8_encode]
    dsimp only
    rw [not_isSealed hlib, trimmed_eq_self (encode_plain hlib _)]
  | locked passphrase d text hp htext =>
    obtain ⟨hmagic, hunseal⟩ := unsealUnder_sealUnder hlib htext
    refine ⟨false, ?_⟩
    dsimp only
    rw [fromUtf8_encode]
    dsimp only
    rw [hmagic, hp]
    dsimp only
    rw [hunseal]
    rfl

private theorem secretContents_stores (hlib : Documented lib) (p : Option Text) (d : SealDraws) (k : Sized 32) :
    ∃ contents, secretContents lib p d (encode (lib.base64 k.1)) = .ok contents ∧ Stores lib p k contents := by
  cases p with
  | none => exact ⟨_, rfl, .clear⟩
  | some passphrase =>
    obtain ⟨ciphertext, hencrypt, -, -⟩ := hlib.encrypt (lib.derive passphrase d.salt) d.nonce k
    have htext : sealUnder lib passphrase d (encode (lib.base64 k.1)) =
        .ok (magic ++ lib.base64 (d.salt.1 ++ d.nonce.1 ++ ciphertext)) := by
      unfold sealUnder
      rw [hencrypt]
    refine ⟨_, ?_, .locked passphrase d _ rfl htext⟩
    unfold secretContents
    dsimp only
    rw [htext]
    rfl

theorem Stores.mono {p q : Option Text} {k : Sized 32} {contents : Bytes} (h : Stores lib p k contents)
    (hlater : p = none ∨ q = p) : Stores lib q k contents := by
  cases h with
  | clear => exact .clear
  | locked passphrase d text hp htext =>
    obtain hnone | hsame := hlater
    · rw [hnone] at hp
      cases hp
    · exact .locked passphrase d text (hsame.trans hp) htext

/-! ### What the directory holds -/

/-- The secrets of the node and of the service, where they are made, are in their files. -/
structure Holds (lib : Lib) (p : Option Text) (node : Option (Sized 32 × Sized 32)) (service : Option (Sized 32))
    (disk : Disk) : Prop where
  hasIdentity (id noise : Sized 32) : node = some (id, noise) →
    ∃ contents, disk .identitySecret = some contents ∧ Stores lib p id contents
  hasNoise (id noise : Sized 32) : node = some (id, noise) →
    ∃ contents, disk .noiseStaticSecret = some contents ∧ Stores lib p noise contents
  noNode : node = none → disk .identitySecret = none
  hasService (k : Sized 32) : service = some k → ∃ contents, disk .serviceSecret = some contents ∧ Stores lib p k contents
  noService : service = none → disk .serviceSecret = none

variable {p : Option Text} {node : Option (Sized 32 × Sized 32)} {service : Option (Sized 32)} {disk : Disk}

/-- A write that puts nothing into a secret's file but that secret. -/
def Good (lib : Lib) (p : Option Text) (node : Option (Sized 32 × Sized 32)) (service : Option (Sized 32))
    (w : File × Bytes) : Prop :=
  match w.1 with
  | .identitySecret => ∃ id noise, node = some (id, noise) ∧ Stores lib p id w.2
  | .noiseStaticSecret => ∃ id noise, node = some (id, noise) ∧ Stores lib p noise w.2
  | .serviceSecret => ∃ k, service = some k ∧ Stores lib p k w.2
  | _ => True

theorem Holds.put (h : Holds lib p node service disk) {w : File × Bytes} (hw : Good lib p node service w) :
    Holds lib p node service (put disk w) := by
  obtain ⟨f, contents⟩ := w
  unfold Good at hw
  cases h
  constructor <;> simp only [Keystore.put, Function.update_apply] <;> cases f <;>
    simp only [reduceCtorEq, if_false, if_true] <;>
    grind

theorem Holds.puts (h : Holds lib p node service disk) {ws : List (File × Bytes)}
    (hws : ∀ w ∈ ws, Good lib p node service w) : Holds lib p node service (ws.foldl Keystore.put disk) := by
  induction ws generalizing disk with
  | nil => exact h
  | cons w ws ih =>
    rw [List.foldl_cons]
    exact ih (h.put (hws w List.mem_cons_self)) fun w' hw' => hws w' (List.mem_cons_of_mem _ hw')

theorem Holds.perform (h : Holds lib p node service disk) {ws : List (File × Bytes)}
    (hws : ∀ w ∈ ws, Good lib p node service w) {crash : Option Crash}
    (hcut : ∀ c, crash = some c → c.left = none ∨ ∀ w ∈ ws, ∀ contents, Good lib p node service (w.1, contents)) :
    Holds lib p node service (perform disk ws crash) := by
  unfold Keystore.perform
  cases crash with
  | none => exact h.puts hws
  | some c =>
    have htaken : Holds lib p node service ((ws.take c.after).foldl Keystore.put disk) :=
      h.puts fun w hw => hws w (List.mem_of_mem_take hw)
    dsimp only
    split
    · rename_i n f contents hleft hnext
      obtain hnone | hany := hcut c rfl
      · rw [hnone] at hleft
        cases hleft
      · exact htaken.put (hany _ (List.mem_of_getElem? hnext) _)
    · exact htaken

/-- A run that is not cut before it has made these writes, and whose others are into files without a secret. -/
private theorem Holds.perform_append (made : List (File × Bytes)) {others : List (File × Bytes)}
    (h : Holds lib p node service (made.foldl Keystore.put disk))
    (hothers : ∀ w ∈ others, ∀ contents, Good lib p node service (w.1, contents)) {crash : Option Crash}
    (hcut : ∀ c, crash = some c → made.length ≤ c.after) :
    Holds lib p node service (Keystore.perform disk (made ++ others) crash) := by
  have hrest (crash : Option Crash) : Holds lib p node service
      (Keystore.perform (made.foldl Keystore.put disk) others crash) :=
    h.perform (fun w hw => hothers w hw w.2) fun _ _ => .inr hothers
  cases crash with
  | none =>
    unfold Keystore.perform
    rw [List.foldl_append]
    exact hrest none
  | some c =>
    have hafter := hcut c rfl
    have hc := hrest (some ⟨c.after - made.length, c.left⟩)
    unfold Keystore.perform at hc ⊢
    dsimp only at hc ⊢
    rwa [List.getElem?_append_right hafter, List.take_append, List.take_of_length_le hafter, List.foldl_append]

theorem Holds.mono {q : Option Text} (h : Holds lib p node service disk) (hlater : p = none ∨ q = p) :
    Holds lib q node service disk := by
  constructor
  · intro id noise hnode
    obtain ⟨contents, hdisk, hstores⟩ := h.hasIdentity id noise hnode
    exact ⟨contents, hdisk, hstores.mono hlater⟩
  · intro id noise hnode
    obtain ⟨contents, hdisk, hstores⟩ := h.hasNoise id noise hnode
    exact ⟨contents, hdisk, hstores.mono hlater⟩
  · exact h.noNode
  · intro k hservice
    obtain ⟨contents, hdisk, hstores⟩ := h.hasService k hservice
    exact ⟨contents, hdisk, hstores.mono hlater⟩
  · exact h.noService

/-! ### Scripts -/

private theorem resealed_cases (hlib : Documented lib) (k : Sized 32) (needs : Bool) (f : File) (s : SealDraws) :
    resealed lib p ⟨encode (lib.base64 k.1), needs⟩ f s = [] ∨
      ∃ contents, resealed lib p ⟨encode (lib.base64 k.1), needs⟩ f s = [(f, .ok contents)] ∧
        Stores lib p k contents := by
  unfold resealed
  dsimp only
  split
  · obtain ⟨contents, hcontents, hstores⟩ := secretContents_stores hlib p s k
    rw [trimmed_lossy hlib, hcontents]
    exact .inr ⟨contents, rfl, hstores⟩
  · exact .inl rfl

theorem load_node (hlib : Documented lib) {id noise : Sized 32} (h : Holds lib p (some (id, noise)) service disk)
    (d : Draws) : ∃ ws, NodeKeys.load lib disk p d = (ws, .ok (.node (NodeKeys.of lib id.1 noise.1))) ∧
      ∀ w ∈ ws, Good lib p (some (id, noise)) service w := by
  obtain ⟨contents, hdisk, hstores⟩ := h.hasIdentity id noise rfl
  obtain ⟨contents', hdisk', hstores'⟩ := h.hasNoise id noise rfl
  obtain ⟨needs, hread⟩ := readSecret_stores hlib hdisk hstores
  obtain ⟨needs', hread'⟩ := readSecret_stores hlib hdisk' hstores'
  unfold NodeKeys.load
  rw [hread]
  dsimp only
  rw [secretBytes_encode hlib]
  dsimp only
  rw [hread']
  dsimp only
  rw [secretBytes_encode hlib]
  dsimp only
  obtain hnone | ⟨c, hc, hcstores⟩ := @resealed_cases lib p hlib id needs .identitySecret d.first <;>
    obtain hnone' | ⟨c', hc', hcstores'⟩ := @resealed_cases lib p hlib noise needs' .noiseStaticSecret d.second
  · rw [hnone, hnone']
    exact ⟨[], rfl, List.forall_mem_nil _⟩
  · rw [hnone, hc']
    exact ⟨[(.noiseStaticSecret, c')], rfl, List.forall_mem_singleton.2 ⟨id, noise, rfl, hcstores'⟩⟩
  · rw [hc, hnone']
    exact ⟨[(.identitySecret, c)], rfl, List.forall_mem_singleton.2 ⟨id, noise, rfl, hcstores⟩⟩
  · rw [hc, hc']
    exact ⟨[(.identitySecret, c), (.noiseStaticSecret, c')], rfl, List.forall_mem_cons.2
      ⟨⟨id, noise, rfl, hcstores⟩, List.forall_mem_singleton.2 ⟨id, noise, rfl, hcstores'⟩⟩⟩

private theorem load_service (hlib : Documented lib) {k : Sized 32} (h : Holds lib p node (some k) disk) (d : Draws) :
    ∃ ws, ServiceKeys.load lib disk p d = (ws, .ok (.service (ServiceKeys.of lib k.1))) ∧
      ∀ w ∈ ws, Good lib p node (some k) w := by
  obtain ⟨contents, hdisk, hstores⟩ := h.hasService k rfl
  obtain ⟨needs, hread⟩ := readSecret_stores hlib hdisk hstores
  unfold ServiceKeys.load
  rw [hread]
  dsimp only
  rw [secretBytes_encode hlib]
  dsimp only
  obtain hnone | ⟨c, hc, hcstores⟩ := @resealed_cases lib p hlib k needs .serviceSecret d.first
  · rw [hnone]
    exact ⟨[], rfl, List.forall_mem_nil _⟩
  · rw [hc]
    exact ⟨[(.serviceSecret, c)], rfl, List.forall_mem_singleton.2 ⟨k, rfl, hcstores⟩⟩

private theorem save_node (hlib : Documented lib) (p : Option Text) (d : Draws) :
    ∃ c₁ c₂ c₃ c₄, NodeKeys.save lib p d = ([(.identitySecret, c₁), (.noiseStaticSecret, c₂), (.identityPublic, c₃),
        (.noiseStaticPublic, c₄)], .ok (.node (NodeKeys.of lib d.identity.1 d.noise.1))) ∧
      Stores lib p d.identity c₁ ∧ Stores lib p d.noise c₂ := by
  obtain ⟨c₁, hc₁, hstores₁⟩ := secretContents_stores hlib p d.first d.identity
  obtain ⟨c₂, hc₂, hstores₂⟩ := secretContents_stores hlib p d.second d.noise
  unfold NodeKeys.save
  rw [hc₁, hc₂]
  exact ⟨c₁, c₂, _, _, rfl, hstores₁, hstores₂⟩

private theorem save_service (hlib : Documented lib) (p : Option Text) (d : Draws) :
    ∃ c₁ c₂ c₃, ServiceKeys.save lib p d = ([(.serviceSecret, c₁), (.servicePublic, c₂), (.serviceAddress, c₃)],
        .ok (.service (ServiceKeys.of lib d.service.1))) ∧ Stores lib p d.service c₁ := by
  obtain ⟨c₁, hc₁, hstores₁⟩ := secretContents_stores hlib p d.first d.service
  unfold ServiceKeys.save
  rw [hc₁]
  exact ⟨c₁, _, _, rfl, hstores₁⟩

/-! ### Runs -/

def Survives (lib : Lib) (m : Machine) : Prop :=
  ∀ (program : Program) (d : Draws), ∃ keys, (loadOrGenerate lib m.disk m.used d program).2 = .ok keys ∧
    ∀ k ∈ m.returned, k.program = program → k = keys

def Later (m : Machine) (s : Start) : Prop := m.used = none ∨ passphrase s.var = m.used

instance (m : Machine) (s : Start) : Decidable (Later m s) := inferInstanceAs (Decidable (_ ∨ _))

def Program.looks : Program → File
  | .node => .identitySecret
  | .service => .serviceSecret

def Program.secrets : Program → Nat
  | .node => 2
  | .service => 1

def Whole (m : Machine) (s : Start) : Prop :=
  match s.crash with
  | none => True
  | some c =>
    if (m.disk s.program.looks).isSome then c.left = none else c = ⟨0, none⟩ ∨ s.program.secrets ≤ c.after

instance (m : Machine) (s : Start) : Decidable (Whole m s) := by
  unfold Whole
  split <;> infer_instance

def keysOf (lib : Lib) (node : Option (Sized 32 × Sized 32)) (service : Option (Sized 32)) : Program → Option Keys
  | .node => node.map fun secrets => .node (NodeKeys.of lib secrets.1.1 secrets.2.1)
  | .service => service.map fun k => .service (ServiceKeys.of lib k.1)

def Sound (lib : Lib) (m : Machine) : Prop :=
  ∃ node service, Holds lib m.used node service m.disk ∧
    ∀ keys ∈ m.returned, keysOf lib node service keys.program = some keys

theorem Holds.load (hlib : Documented lib) (h : Holds lib p node service disk) (d : Draws) {program : Program}
    {keys : Keys} (hkeys : keysOf lib node service program = some keys) :
    ∃ ws, loadOrGenerate lib disk p d program = (ws, .ok keys) ∧ ∀ w ∈ ws, Good lib p node service w := by
  cases program with
  | node =>
    obtain ⟨⟨id, noise⟩, rfl, rfl⟩ := Option.map_eq_some_iff.1 hkeys
    obtain ⟨contents, hdisk, -⟩ := h.hasIdentity id noise rfl
    obtain ⟨ws, hload, hws⟩ := load_node hlib h d
    refine ⟨ws, ?_, hws⟩
    unfold loadOrGenerate
    dsimp only
    rw [hdisk]
    exact hload
  | service =>
    obtain ⟨k, rfl, rfl⟩ := Option.map_eq_some_iff.1 hkeys
    obtain ⟨contents, hdisk, -⟩ := h.hasService k rfl
    obtain ⟨ws, hload, hws⟩ := load_service hlib h d
    refine ⟨ws, ?_, hws⟩
    unfold loadOrGenerate
    dsimp only
    rw [hdisk]
    exact hload

private theorem Holds.made_node (h : Holds lib p none service disk) {id noise : Sized 32} {c c' : Bytes}
    (hid : Stores lib p id c) (hnoise : Stores lib p noise c') :
    Holds lib p (some (id, noise)) service
      (Keystore.put (Keystore.put disk (.identitySecret, c)) (.noiseStaticSecret, c')) := by
  cases h
  constructor <;> simp only [Keystore.put, Function.update_apply, reduceCtorEq, if_false, if_true] <;> grind

private theorem Holds.made_service (h : Holds lib p node none disk) {k : Sized 32} {c : Bytes} (hk : Stores lib p k c) :
    Holds lib p node (some k) (Keystore.put disk (.serviceSecret, c)) := by
  cases h
  constructor <;> simp only [Keystore.put, Function.update_apply, reduceCtorEq, if_false, if_true] <;> grind

theorem Holds.make (hlib : Documented lib) (h : Holds lib p node service disk) (d : Draws) {program : Program}
    (hkeys : keysOf lib node service program = none) :
    ∃ ws keys, loadOrGenerate lib disk p d program = (ws, .ok keys) ∧ keys.program = program ∧
      ∀ crash : Option Crash,
        (∀ c, crash = some c → program.secrets ≤ c.after) →
        ∃ node' service', Holds lib p node' service' (Keystore.perform disk ws crash) ∧
          keysOf lib node' service' program = some keys ∧
          ∀ q, q ≠ program → keysOf lib node' service' q = keysOf lib node service q := by
  cases program with
  | node =>
    obtain rfl := Option.map_eq_none_iff.1 hkeys
    obtain ⟨c₁, c₂, c₃, c₄, hsave, hid, hnoise⟩ := save_node hlib p d
    refine ⟨[(.identitySecret, c₁), (.noiseStaticSecret, c₂), (.identityPublic, c₃), (.noiseStaticPublic, c₄)], _, ?_,
      rfl, fun crash hcrash => ⟨some (d.identity, d.noise), service, ?_, rfl, ?_⟩⟩
    · unfold loadOrGenerate
      dsimp only
      rw [h.noNode rfl]
      exact hsave
    · refine Holds.perform_append [(.identitySecret, c₁), (.noiseStaticSecret, c₂)]
        (h.made_node hid hnoise) (fun w hw contents => ?_) hcrash
      simp only [List.mem_cons, List.not_mem_nil, or_false] at hw
      obtain rfl | rfl := hw
      · trivial
      · trivial
    · intro q hq
      cases q with
      | node => exact absurd rfl hq
      | service => rfl
  | service =>
    obtain rfl := Option.map_eq_none_iff.1 hkeys
    obtain ⟨c₁, c₂, c₃, hsave, hk⟩ := save_service hlib p d
    refine ⟨[(.serviceSecret, c₁), (.servicePublic, c₂), (.serviceAddress, c₃)], _, ?_, rfl,
      fun crash hcrash => ⟨node, some d.service, ?_, rfl, ?_⟩⟩
    · unfold loadOrGenerate
      dsimp only
      rw [h.noService rfl]
      exact hsave
    · refine Holds.perform_append [(.serviceSecret, c₁)] (h.made_service hk) (fun w hw contents => ?_) hcrash
      simp only [List.mem_cons, List.not_mem_nil, or_false] at hw
      obtain rfl | rfl := hw
      · trivial
      · trivial
    · intro q hq
      cases q with
      | node => rfl
      | service => exact absurd rfl hq

private theorem Sound.survives (hlib : Documented lib) {m : Machine} (h : Sound lib m) : Survives lib m := by
  obtain ⟨node, service, hholds, hreturned⟩ := h
  intro program d
  cases hkeys : keysOf lib node service program with
  | some keys =>
    obtain ⟨ws, hload, -⟩ := hholds.load hlib d hkeys
    refine ⟨keys, by rw [hload], fun k hk hprogram => ?_⟩
    have hsame := hreturned k hk
    rw [hprogram, hkeys] at hsame
    exact (Option.some.inj hsame).symm
  | none =>
    obtain ⟨ws, keys, hmake, -, -⟩ := hholds.make hlib d hkeys
    refine ⟨keys, by rw [hmake], fun k hk hprogram => ?_⟩
    have hsome := hreturned k hk
    rw [hprogram, hkeys] at hsome
    cases hsome

private theorem Holds.isSome_looks (h : Holds lib p node service disk) (program : Program) :
    (disk program.looks).isSome = (keysOf lib node service program).isSome := by
  cases program with
  | node =>
    cases node with
    | none =>
      unfold Program.looks
      dsimp only
      rw [h.noNode rfl]
      rfl
    | some secrets =>
      obtain ⟨contents, hdisk, -⟩ := h.hasIdentity secrets.1 secrets.2 rfl
      unfold Program.looks
      dsimp only
      rw [hdisk]
      rfl
  | service =>
    cases service with
    | none =>
      unfold Program.looks
      dsimp only
      rw [h.noService rfl]
      rfl
    | some k =>
      obtain ⟨contents, hdisk, -⟩ := h.hasService k rfl
      unfold Program.looks
      dsimp only
      rw [hdisk]
      rfl

theorem Sound.step (hlib : Documented lib) {m : Machine} (h : Sound lib m) {s : Start} (hlater : Later m s)
    (hwhole : Whole m s) : Sound lib (m.step lib s) := by
  obtain ⟨node, service, hwas, hreturned⟩ := h
  have hholds := hwas.mono hlater
  have hlooks := hwas.isSome_looks s.program
  unfold Machine.step Sound
  cases hkeys : keysOf lib node service s.program with
  | some keys =>
    -- the secrets are there, and no write of theirs is cut
    obtain ⟨ws, hload, hws⟩ := hholds.load hlib s.draws hkeys
    have hprogram : keysOf lib node service keys.program = some keys := by
      cases hs : s.program <;> rw [hs] at hkeys <;> obtain ⟨secrets, -, rfl⟩ := Option.map_eq_some_iff.1 hkeys <;>
        exact hkeys
    dsimp only
    rw [hload]
    refine ⟨node, service, hholds.perform hws fun c hc => .inl ?_, fun k hk => ?_⟩
    · unfold Whole at hwhole
      rw [hc, hlooks, hkeys] at hwhole
      exact hwhole
    · dsimp only at hk
      split at hk
      · rename_i heq
        obtain rfl := Except.ok.inj heq
        obtain hk | hk := List.mem_append.1 hk
        · exact hreturned k hk
        · rw [List.mem_singleton.1 hk, hprogram]
      · exact hreturned k hk
  | none =>
    obtain ⟨ws, keys, hmake, hprogram, hafter⟩ := hholds.make hlib s.draws hkeys
    dsimp only
    rw [hmake]
    by_cases hcut : s.crash = some ⟨0, none⟩
    · rw [hcut]
      exact ⟨node, service, hholds, hreturned⟩
    · obtain ⟨node', service', hholds', hkeys', hothers⟩ := hafter s.crash fun c hc => by
        unfold Whole at hwhole
        rw [hc, hlooks, hkeys] at hwhole
        exact hwhole.resolve_left fun h0 => hcut (h0 ▸ hc)
      have hkept (k : Keys) (hk : k ∈ m.returned) : keysOf lib node' service' k.program = some k := by
        have hwas := hreturned k hk
        rw [hothers]
        · exact hwas
        · intro heq
          rw [heq, hkeys] at hwas
          cases hwas
      refine ⟨node', service', hholds', fun k hk => ?_⟩
      dsimp only at hk
      split at hk
      · rename_i heq
        obtain rfl := Except.ok.inj heq
        obtain hk | hk := List.mem_append.1 hk
        · exact hkept k hk
        · rw [List.mem_singleton.1 hk, hprogram, hkeys']
      · exact hkept k hk

theorem sound_new : Sound lib .new :=
  ⟨none, none, ⟨by nofun, by nofun, fun _ => rfl, by nofun, fun _ => rfl⟩, by nofun⟩

/-- After every run of runs that are cut where no secret is lost, the next run has the keys of the runs before it. -/
theorem identity_run (lib : Lib) (hlib : Documented lib) (starts : List Start)
    (hlater : Along (Machine.step lib) Later .new starts) (hwhole : Along (Machine.step lib) Whole .new starts) :
    Survives lib (run (Machine.step lib) .new starts) := by
  have hsound : Sound lib (run (Machine.step lib) .new starts) :=
    run_invariant (P := Sound lib) (fun m s h hok => h.step hlib hok.1 hok.2) (hlater.and hwhole) sound_new
  exact hsound.survives hlib

namespace Sample

def tag (key : Bytes) : Bytes := (key ++ List.replicate 16 0).take 16

def boxes : Lib where
  derive passphrase salt := encode passphrase ++ salt
  encrypt key _ plaintext := some (plaintext ++ tag key)
  decrypt key _ ciphertext :=
    if ciphertext.drop (ciphertext.length - 16) = tag key then some (ciphertext.take (ciphertext.length - 16)) else none
  base64 := Base64.encode
  fromBase64 := Base64.decode
  encodingError _ := "Invalid input length".toList
  verifyingKey key := key
  x25519Public key := key
  blake3 key := key
  display _ := "keys".toList

private theorem length_tag (key : Bytes) : (tag key).length = 16 := by
  simp [tag]

theorem documented : Documented boxes := by
  refine ⟨Base64.decode_encode, fun _ _ => Base64.mem_encode, fun key nonce k => ⟨_, rfl, ?_, ?_⟩⟩
  · rw [List.length_append, length_tag]
    omega
  · unfold boxes
    dsimp only
    rw [List.length_append, length_tag, Nat.add_sub_cancel, List.drop_left, List.take_left, if_pos rfl]

def drawing (k : UInt8) : Draws where
  identity := ⟨List.replicate 32 k, by simp⟩
  noise := ⟨List.replicate 32 (k + 1), by simp⟩
  service := ⟨List.replicate 32 (k + 2), by simp⟩
  first := ⟨⟨List.replicate 16 k, by simp⟩, ⟨List.replicate 24 k, by simp⟩⟩
  second := ⟨⟨List.replicate 16 (k + 1), by simp⟩, ⟨List.replicate 24 k, by simp⟩⟩

end Sample

open Sample

/-- A run that is cut as it opens the file of the first secret leaves it empty, and the next run does not load it. -/
theorem emptied : ¬ ∀ lib : Lib, Documented lib → ∀ starts : List Start,
    Along (Machine.step lib) Later .new starts → Survives lib (run (Machine.step lib) .new starts) := by
  intro h
  obtain ⟨keys, hkeys, -⟩ :=
    h boxes documented [⟨.node, none, drawing 1, some ⟨0, some 0⟩⟩] (by decide) .node (drawing 2)
  have hrefused : (loadOrGenerate boxes
      (run (Machine.step boxes) .new [⟨.node, none, drawing 1, some ⟨0, some 0⟩⟩]).disk none (drawing 2) .node).2 =
      .error (.keyManagement "identity key must be exactly 32 bytes".toList) := by rfl
  exact absurd (hkeys.symm.trans hrefused) (by nofun)

/-- A node is made, cut as it seals its second secret, and then its service is made. -/
theorem identity_run_sealed : Survives boxes (run (Machine.step boxes) .new
    [⟨.node, none, drawing 1, none⟩, ⟨.node, some "pass".toList, drawing 2, some ⟨1, none⟩⟩,
      ⟨.service, some "pass".toList, drawing 3, some ⟨1, some 5⟩⟩, ⟨.service, some "pass".toList, drawing 4, none⟩]) :=
  identity_run boxes documented _ (by decide +kernel) (by decide +kernel)

end HidraNet.Keystore
