import CarAuction.Guards
import CarAuction.Lib.Fields

/- The buckets of the connection limit by address. `Address.text` is an address as
   the socket layer writes it: the octets of an IPv4 address in decimal, the groups
   of an IPv6 address in hexadecimal with its first longest run of zero groups left
   out, and the last two groups as octets when the run is the first six, or the first
   five before `ffff`. `Address.host` is the host it denotes, by the comments of
   `normalizeIp`.

   Correspondence (TypeScript ↔ Lean):
     `client.handshake.address`                    ↔ `Address.text`
     `::ffff:x.x.x.x` stands for `x.x.x.x`         ↔ `Address.unmapped`
     `IPv6 loopback (::1) → 127.0.0.1`             ↔ `Address.host`
     `ip.replace(/[.:]/g, "_")`                    ↔ `underscore` -/
namespace CarAuction

open Fields

abbrev Octet := Fin 256

/-- Two octets of an IPv6 address. -/
abbrev Group := Fin 65536

structure Ipv4 where
  a : Octet
  b : Octet
  c : Octet
  d : Octet
  deriving DecidableEq

structure Ipv6 where
  g0 : Group
  g1 : Group
  g2 : Group
  g3 : Group
  g4 : Group
  g5 : Group
  g6 : Group
  g7 : Group
  deriving DecidableEq

inductive Address where
  | v4 (ip : Ipv4)
  | v6 (ip : Ipv6)
  deriving DecidableEq

def Group.high (g : Group) : Octet := ⟨g / 256, by omega⟩

def Group.low (g : Group) : Octet := ⟨g % 256, by omega⟩

def Group.join (high low : Octet) : Group := ⟨256 * high + low, by omega⟩

namespace Ipv6

def groups (x : Ipv6) : List Group := [x.g0, x.g1, x.g2, x.g3, x.g4, x.g5, x.g6, x.g7]

/-- The last two groups as octets. -/
def tail (x : Ipv6) : Ipv4 := ⟨Group.high x.g6, Group.low x.g6, Group.high x.g7, Group.low x.g7⟩

end Ipv6

/-! The text of an address. -/

def leadingZeros : List Group → ℕ
  | [] => 0
  | g :: gs => if g = 0 then leadingZeros gs + 1 else 0

/-- Where the first longest run of zero groups begins, and its length. -/
def bestRun : List Group → ℕ × ℕ
  | [] => (0, 0)
  | g :: gs =>
    if (bestRun gs).2 ≤ leadingZeros (g :: gs) then (0, leadingZeros (g :: gs))
    else ((bestRun gs).1 + 1, (bestRun gs).2)

/-- The shapes of the text. -/
inductive Form where
  | dotted (ip : Ipv4)
  | mapped (ip : Ipv4)
  | compatible (ip : Ipv4)
  | full (groups : List Group)
  | compressed (pre post : List Group)
  deriving DecidableEq

def Ipv6.form (x : Ipv6) : Form :=
  let run := bestRun x.groups
  if run = (0, 6) then .compatible x.tail
  else if run = (0, 5) ∧ x.g5 = 0xffff then .mapped x.tail
  -- a single zero group is written out
  else if 2 ≤ run.2 then .compressed (x.groups.take run.1) (x.groups.drop (run.1 + run.2))
  else .full x.groups

def Address.form : Address → Form
  | .v4 ip => .dotted ip
  | .v6 ip => ip.form

def decimal (n : Octet) : List Char := Nat.toDigits 10 n

def hex (g : Group) : List Char := Nat.toDigits 16 g

def Ipv4.octets (ip : Ipv4) : List (List Char) :=
  [decimal ip.a, decimal ip.b, decimal ip.c, decimal ip.d]

def Form.text : Form → List Char
  | .dotted ip => ['.'].intercalate ip.octets
  | .mapped ip => [':', ':', 'f', 'f', 'f', 'f', ':'] ++ ['.'].intercalate ip.octets
  | .compatible ip => [':', ':'] ++ ['.'].intercalate ip.octets
  | .full groups => [':'].intercalate (groups.map hex)
  | .compressed pre post => [':'].intercalate (gapped [] (pre.map hex) (post.map hex))

def Address.text (x : Address) : String := String.ofList x.form.text

/-! The host it denotes. -/

def Ipv6.loopback : Ipv6 := ⟨0, 0, 0, 0, 0, 0, 0, 1⟩

def Ipv4.loopback : Ipv4 := ⟨127, 0, 0, 1⟩

/-- An IPv4-mapped address as the IPv4 address. -/
def Address.unmapped : Address → Address
  | .v4 ip => .v4 ip
  | .v6 ip => if ip.groups.take 6 = [0, 0, 0, 0, 0, 0xffff] then .v4 ip.tail else .v6 ip

def Address.host (x : Address) : Address :=
  if x = .v6 .loopback then .v4 .loopback else x.unmapped

/-- `::a.b.c.d`. -/
def Ipv6.compatible (ip : Ipv4) : Ipv6 := ⟨0, 0, 0, 0, 0, 0, .join ip.a ip.b, .join ip.c ip.d⟩

/-- The group written with the digits of the octet. -/
def Octet.asGroup (n : Octet) : Group := ⟨256 * (n / 100) + 16 * (n / 10 % 10) + n % 10, by omega⟩

/-- `::a:b:c:d`, with the digits of the octets. -/
def Ipv6.ofDigits (ip : Ipv4) : Ipv6 :=
  ⟨0, 0, 0, 0, Octet.asGroup ip.a, Octet.asGroup ip.b, Octet.asGroup ip.c, Octet.asGroup ip.d⟩

/-- An IPv4-compatible address, and the one whose last four groups have its digits. -/
def SameDigits (x y : Address) : Prop :=
  ∃ ip : Ipv4, ip.a ≠ 0 ∧ x = .v6 (.compatible ip) ∧ y = .v6 (.ofDigits ip)

/-- The loopback of IPv6 and that of IPv4, plain or mapped. -/
def Loopbacks (x y : Address) : Prop := x = .v6 .loopback ∧ y.unmapped = .v4 .loopback

variable {x y : Ipv6} {ip : Ipv4} {gs pre post : List Group} {g : Group}

/-! The form determines the address. -/

@[simp] theorem Group.join_high_low (g : Group) : Group.join g.high g.low = g := by
  apply Fin.ext
  show 256 * (g.val / 256) + g.val % 256 = g.val
  exact Nat.div_add_mod g.val 256

@[simp] theorem Group.high_join (a b : Octet) : (Group.join a b).high = a := by
  apply Fin.ext
  show (256 * a.val + b.val) / 256 = a.val
  omega

@[simp] theorem Group.low_join (a b : Octet) : (Group.join a b).low = b := by
  apply Fin.ext
  show (256 * a.val + b.val) % 256 = b.val
  omega

theorem Ipv6.groups_inj (h : x.groups = y.groups) : x = y := by
  obtain ⟨x0, x1, x2, x3, x4, x5, x6, x7⟩ := x
  obtain ⟨y0, y1, y2, y3, y4, y5, y6, y7⟩ := y
  simpa [groups] using h

theorem zeros_append (gs : List Group) :
    List.replicate (leadingZeros gs) 0 ++ gs.drop (leadingZeros gs) = gs := by
  induction gs with
  | nil => rfl
  | cons g gs ih =>
    by_cases hg : g = 0
    · simp [leadingZeros, hg, List.replicate_succ, ih]
    · simp [leadingZeros, hg]

theorem bestRun_spec (gs : List Group) : leadingZeros (gs.drop (bestRun gs).1) = (bestRun gs).2 := by
  induction gs with
  | nil => rfl
  | cons g gs ih =>
    simp only [bestRun]
    split
    · rfl
    · exact ih

/-- The run cuts the groups into what is before it, its zeros and what is after it. -/
theorem groups_eq_run (gs : List Group) :
    gs = gs.take (bestRun gs).1 ++
      (List.replicate (bestRun gs).2 0 ++ gs.drop ((bestRun gs).1 + (bestRun gs).2)) := by
  have hzeros := zeros_append (gs.drop (bestRun gs).1)
  rw [bestRun_spec, List.drop_drop] at hzeros
  rw [hzeros, List.take_append_drop]

/-- The groups that a form of an IPv6 address stands for. -/
def Form.groups : Form → List Group
  | .dotted _ => []
  | .mapped ip => [0, 0, 0, 0, 0, 0xffff, .join ip.a ip.b, .join ip.c ip.d]
  | .compatible ip => [0, 0, 0, 0, 0, 0, .join ip.a ip.b, .join ip.c ip.d]
  | .full groups => groups
  | .compressed pre post => pre ++ (List.replicate (8 - (pre.length + post.length)) 0 ++ post)

theorem Ipv6.groups_form (x : Ipv6) : x.form.groups = x.groups := by
  have hrun := groups_eq_run x.groups
  simp only [form]
  split
  · next h =>
    rw [h] at hrun
    simp [Ipv6.groups, List.replicate] at hrun
    simp [Form.groups, Ipv6.groups, tail, hrun]
  · split
    · next h =>
      rw [h.1] at hrun
      simp [Ipv6.groups, List.replicate] at hrun
      simp [Form.groups, Ipv6.groups, tail, hrun, h.2]
    · split
      · -- the zeros are those that the eight groups lack
        have hlength := congrArg List.length hrun
        rw [List.length_append, List.length_append, List.length_replicate] at hlength
        have height : x.groups.length = 8 := rfl
        have hzeros : 8 - ((x.groups.take (bestRun x.groups).1).length +
            (x.groups.drop ((bestRun x.groups).1 + (bestRun x.groups).2)).length) =
              (bestRun x.groups).2 := by
          omega
        rw [Form.groups, hzeros]
        exact hrun.symm
      · rfl

/-- An IPv6 address is not written as an IPv4 address. -/
theorem Ipv6.form_ne_dotted (x : Ipv6) (ip : Ipv4) : x.form ≠ .dotted ip := by
  simp only [form]
  split
  · exact fun h => by cases h
  · split
    · exact fun h => by cases h
    · split
      · exact fun h => by cases h
      · exact fun h => by cases h

theorem Address.form_inj {x y : Address} (h : x.form = y.form) : x = y := by
  cases x with
  | v4 ip =>
    cases y with
    | v4 ip' => cases h; rfl
    | v6 ip' => exact absurd h.symm (ip'.form_ne_dotted ip)
  | v6 ip =>
    cases y with
    | v4 ip' => exact absurd h (ip.form_ne_dotted ip')
    | v6 ip' =>
      have hgroups : ip.groups = ip'.groups := by
        rw [← ip.groups_form, ← ip'.groups_form]
        exact congrArg Form.groups h
      rw [Ipv6.groups_inj hgroups]

/-! The runs of the addresses the claims of the comments are about. -/

theorem bestRun_le_length (gs : List Group) : (bestRun gs).2 ≤ gs.length := by
  have hrun := congrArg List.length (groups_eq_run gs)
  rw [List.length_append, List.length_append, List.length_replicate] at hrun
  omega

theorem leadingZeros_replicate (k : ℕ) (hg : g ≠ 0) :
    leadingZeros (List.replicate k 0 ++ g :: gs) = k := by
  induction k with
  | zero => simp [leadingZeros, hg]
  | succ k ih => simpa [List.replicate_succ, leadingZeros] using ih

theorem bestRun_cons_length (g : Group) (gs : List Group) :
    (bestRun (g :: gs)).2 = max (leadingZeros (g :: gs)) (bestRun gs).2 := by
  simp only [bestRun]
  split
  · next h => exact (Nat.max_eq_left h).symm
  · next h => exact (Nat.max_eq_right (by omega)).symm

/-- Leading zeros that no later run can exceed are the first longest run. -/
theorem bestRun_replicate {k : ℕ} (hg : g ≠ 0) (hk : gs.length ≤ k) :
    bestRun (List.replicate k 0 ++ g :: gs) = (0, k) := by
  have hle : ∀ j ≤ k, (bestRun (List.replicate j 0 ++ g :: gs)).2 ≤ k := by
    intro j hj
    induction j with
    | zero =>
      have hrest : (bestRun gs).2 ≤ gs.length := bestRun_le_length gs
      have hlast : (bestRun (g :: gs)).2 = max 0 (bestRun gs).2 := by
        rw [bestRun_cons_length]
        exact congrArg (max · _) (leadingZeros_replicate 0 hg)
      show (bestRun (g :: gs)).2 ≤ k
      omega
    | succ j ih =>
      have hrest := ih (by omega)
      have hnext : (bestRun (List.replicate (j + 1) 0 ++ g :: gs)).2 =
          max (j + 1) (bestRun (List.replicate j 0 ++ g :: gs)).2 :=
        (bestRun_cons_length 0 _).trans
          (congrArg (max · _) (leadingZeros_replicate (j + 1) hg))
      omega
  cases k with
  | zero =>
    cases List.eq_nil_of_length_eq_zero (Nat.le_zero.mp hk)
    simp [bestRun, leadingZeros, hg]
  | succ k =>
    have hzeros : leadingZeros (0 :: (List.replicate k 0 ++ g :: gs)) = k + 1 :=
      leadingZeros_replicate (k + 1) hg
    have hrest := hle k (by omega)
    show bestRun (0 :: (List.replicate k 0 ++ g :: gs)) = (0, k + 1)
    rw [bestRun, hzeros, if_pos hrest]

theorem Ipv6.form_mapped (h : x.groups.take 6 = [0, 0, 0, 0, 0, 0xffff]) :
    x.form = .mapped x.tail := by
  have hgroups : x.groups = List.replicate 5 0 ++ 0xffff :: [x.g6, x.g7] := by
    rw [← List.take_append_drop 6 x.groups, h]
    rfl
  have hmark : x.g5 = 0xffff := by
    simp only [groups, List.take_succ_cons, List.take_zero, List.cons.injEq] at h
    exact h.2.2.2.2.2.1
  have hrun : bestRun x.groups = (0, 5) := by
    rw [hgroups]
    exact bestRun_replicate (by decide) (by simp)
  simp [form, hrun, hmark]

theorem Ipv6.take_of_form_mapped (h : x.form = .mapped ip) :
    x.groups.take 6 = [0, 0, 0, 0, 0, 0xffff] := by
  rw [← x.groups_form, h]
  rfl

theorem Ipv6.form_compressed_run (h : x.form = .compressed pre post) :
    x.groups.drop (bestRun x.groups).1 = List.replicate (bestRun x.groups).2 0 ++ post := by
  have hrun := groups_eq_run x.groups
  have hzeros := zeros_append (x.groups.drop (bestRun x.groups).1)
  rw [bestRun_spec, List.drop_drop] at hzeros
  simp only [form] at h
  split at h
  · cases h
  · split at h
    · cases h
    · split at h
      · obtain ⟨-, hpost⟩ := Form.compressed.inj h
        rw [← hpost]
        exact hzeros.symm
      · cases h

/-- The zeros that are left out do not go on after the gap. -/
theorem Ipv6.head_ne_of_form_compressed (h : x.form = .compressed pre (g :: post)) : g ≠ 0 := by
  intro hg
  have hspec := bestRun_spec x.groups
  rw [form_compressed_run h, hg] at hspec
  have hmore : ∀ k, leadingZeros (List.replicate k 0 ++ 0 :: post) = k + 1 + leadingZeros post := by
    intro k
    induction k with
    | zero => simp [leadingZeros, Nat.add_comm]
    | succ k ih =>
      rw [List.replicate_succ, List.cons_append, leadingZeros, if_pos rfl, ih]
      omega
  rw [hmore] at hspec
  omega

theorem Ipv6.form_loopback : loopback.form = .compressed [] [1] := by
  have hrun : bestRun loopback.groups = (0, 7) := bestRun_replicate (k := 7) (by decide) (by simp)
  rw [form, hrun]
  rfl

theorem Group.join_ne_zero {a b : Octet} (ha : a ≠ 0) : Group.join a b ≠ 0 := by
  intro h
  apply ha
  rw [← Group.high_join a b, h]
  rfl

theorem Ipv6.form_compatible (ha : ip.a ≠ 0) : (compatible ip).form = .compatible ip := by
  have hrun : bestRun (compatible ip).groups = (0, 6) :=
    bestRun_replicate (k := 6) (Group.join_ne_zero ha) (by simp)
  have htail : (compatible ip).tail = ip := by simp [tail, compatible]
  rw [form, hrun, htail]
  rfl

theorem Ipv6.eq_of_form_compatible (h : x.form = .compatible ip) : x = compatible ip := by
  apply groups_inj
  rw [← x.groups_form, h]
  rfl

theorem Octet.asGroup_ne_zero {n : Octet} (hn : n ≠ 0) : n.asGroup ≠ 0 := by
  intro h
  have hval : 256 * (n.val / 100) + 16 * (n.val / 10 % 10) + n.val % 10 = 0 := congrArg Fin.val h
  apply hn
  apply Fin.ext
  show n.val = 0
  omega

theorem Ipv6.form_ofDigits (ha : ip.a ≠ 0) : (ofDigits ip).form =
    .compressed [] [Octet.asGroup ip.a, Octet.asGroup ip.b, Octet.asGroup ip.c, Octet.asGroup ip.d] := by
  have hrun : bestRun (ofDigits ip).groups = (0, 4) :=
    bestRun_replicate (k := 4) (Octet.asGroup_ne_zero ha) (by simp)
  rw [form, hrun]
  simp [groups, ofDigits]

/-! The characters of a text. -/

/-- A numeral of a base up to sixteen. -/
def Numeral (f : List Char) : Prop := f ≠ [] ∧ ∀ c ∈ f, ∃ d < 16, c = d.digitChar

theorem decimal_ne_nil (n : Octet) : decimal n ≠ [] := Nat.toDigits_ne_nil

theorem decimal_isDigit {n : Octet} {c : Char} (h : c ∈ decimal n) : c.isDigit = true :=
  Nat.isDigit_of_mem_toDigits (b := 10) (by decide) (by decide) h

theorem decimal_numeral (n : Octet) : Numeral (decimal n) := by
  refine ⟨decimal_ne_nil n, fun c hc => ?_⟩
  obtain ⟨d, hd, rfl⟩ := mem_toDigits (by decide) hc
  exact ⟨d, by omega, rfl⟩

theorem hex_numeral (g : Group) : Numeral (hex g) :=
  ⟨Nat.toDigits_ne_nil, fun _ hc => mem_toDigits (by decide) hc⟩

theorem Ipv4.octets_numeral (ip : Ipv4) : ∀ f ∈ ip.octets, Numeral f := by
  simp [octets, decimal_numeral]

theorem map_hex_numeral (gs : List Group) : ∀ f ∈ gs.map hex, Numeral f := by
  simp [hex_numeral]

/-- The characters that no numeral has: the separators and a letter of `localhost`. -/
theorem Numeral.notMem {f : List Char} {c : Char} (h : Numeral f) (hc : c ∈ ['.', ':', '_', 'l']) :
    c ∉ f := by
  intro hmem
  obtain ⟨d, hd, hdigit⟩ := h.2 c hmem
  simp only [List.mem_cons, List.not_mem_nil, or_false] at hc
  rcases hc with rfl | rfl | rfl | rfl
  · exact (show ∀ d < 16, '.' ≠ d.digitChar by decide) d hd hdigit
  · exact (show ∀ d < 16, ':' ≠ d.digitChar by decide) d hd hdigit
  · exact (show ∀ d < 16, '_' ≠ d.digitChar by decide) d hd hdigit
  · exact (show ∀ d < 16, 'l' ≠ d.digitChar by decide) d hd hdigit

theorem decimal_inj {m n : Octet} (h : decimal m = decimal n) : m = n :=
  Fin.ext (toDigits_inj (by decide) (by decide) h)

theorem hex_inj {g g' : Group} (h : hex g = hex g') : g = g' :=
  Fin.ext (toDigits_inj (by decide) (by decide) h)

theorem Ipv4.octets_inj {ip ip' : Ipv4} (h : ip.octets = ip'.octets) : ip = ip' := by
  obtain ⟨a, b, c, d⟩ := ip
  obtain ⟨a', b', c', d'⟩ := ip'
  simp only [octets, List.cons.injEq, and_true] at h
  rw [decimal_inj h.1, decimal_inj h.2.1, decimal_inj h.2.2.1, decimal_inj h.2.2.2]

theorem map_hex_inj {gs gs' : List Group} (h : gs.map hex = gs'.map hex) : gs = gs' :=
  List.map_injective_iff.mpr (fun _ _ => hex_inj) h

theorem hex_asGroup (n : Octet) : hex n.asGroup = decimal n := by
  have hall : ∀ n : Octet, hex n.asGroup = decimal n := by decide +kernel
  exact hall n

/-- The numerals of a form, those before the gap apart when there is one. -/
def Form.sides : Form → Option (List (List Char)) × List (List Char)
  | .dotted ip => (none, ip.octets)
  | .mapped ip => (none, ip.octets)
  | .compatible ip => (some [], ip.octets)
  | .full groups => (none, groups.map hex)
  | .compressed pre post => (some (pre.map hex), post.map hex)

/-- What is between the underscores of the bucket. -/
def Form.fields (form : Form) : List (List Char) :=
  match form.sides with
  | (none, fs) => fs
  | (some pre, post) => gapped [] pre post

theorem Form.sides_numeral (form : Form) :
    (∀ pre ∈ form.sides.1, ∀ f ∈ pre, Numeral f) ∧ ∀ f ∈ form.sides.2, Numeral f := by
  cases form with
  | dotted ip => exact ⟨fun pre h => (by cases h), ip.octets_numeral⟩
  | mapped ip => exact ⟨fun pre h => (by cases h), ip.octets_numeral⟩
  | compatible ip =>
    refine ⟨fun pre h f hf => ?_, ip.octets_numeral⟩
    cases h
    cases hf
  | full groups => exact ⟨fun pre h => (by cases h), map_hex_numeral groups⟩
  | compressed pre post =>
    refine ⟨fun pre' h => ?_, map_hex_numeral post⟩
    cases h
    exact map_hex_numeral pre

theorem nil_notMem_of_numeral {fs : List (List Char)} (h : ∀ f ∈ fs, Numeral f) : [] ∉ fs :=
  fun hmem => (h [] hmem).1 rfl

theorem mem_gapped {pre post : List (List Char)} {f : List Char} (h : f ∈ gapped [] pre post) :
    f = [] ∨ f ∈ pre ∨ f ∈ post := by
  have hside : ∀ {l : List (List Char)}, f ∈ side [] l → f = [] ∨ f ∈ l := by
    intro l hl
    cases l with
    | nil => exact .inl (List.mem_singleton.mp hl)
    | cons a l => exact .inr hl
  rcases List.mem_append.mp h with hpre | hrest
  · exact (hside hpre).imp_right .inl
  · rcases List.mem_cons.mp hrest with rfl | hpost
    · exact .inl rfl
    · exact (hside hpost).imp_right .inr

theorem Form.field_numeral {form : Form} {f : List Char} (h : f ∈ form.fields) :
    f = [] ∨ Numeral f := by
  obtain ⟨hpre, hpost⟩ := form.sides_numeral
  simp only [fields] at h
  split at h
  · next fs hsides =>
    rw [hsides] at hpost
    exact .inr (hpost f h)
  · next pre post hsides =>
    rw [hsides] at hpre hpost
    rcases mem_gapped h with hnil | hf | hf
    · exact .inl hnil
    · exact .inr (hpre pre rfl f hf)
    · exact .inr (hpost f hf)

/-- The fields of a form show where its gap is. -/
theorem Form.sides_of_fields {form form' : Form} (h : form.fields = form'.fields) :
    form.sides = form'.sides := by
  obtain ⟨hpre, hpost⟩ := form.sides_numeral
  obtain ⟨hpre', hpost'⟩ := form'.sides_numeral
  have hgap : ∀ pre post : List (List Char), [] ∈ gapped [] pre post := by
    simp [gapped]
  simp only [fields] at h
  split at h
  · next fs hsides =>
    rw [hsides] at hpost
    split at h
    · next fs' hsides' => rw [hsides, hsides', h]
    · next pre' post' hsides' =>
      exact absurd (h ▸ hgap pre' post') (nil_notMem_of_numeral hpost)
  · next pre post hsides =>
    rw [hsides] at hpre hpost
    split at h
    · next fs' hsides' =>
      rw [hsides'] at hpost'
      exact absurd (h ▸ hgap pre post) (nil_notMem_of_numeral hpost')
    · next pre' post' hsides' =>
      rw [hsides'] at hpre' hpost'
      obtain ⟨rfl, rfl⟩ := gapped_inj (nil_notMem_of_numeral (hpre pre rfl))
        (nil_notMem_of_numeral hpost) (nil_notMem_of_numeral (hpre' pre' rfl))
        (nil_notMem_of_numeral hpost') h
      rw [hsides, hsides']

theorem Form.notMem_field {form : Form} {f : List Char} {c : Char} (h : f ∈ form.fields)
    (hc : c ∈ ['.', ':', '_', 'l']) : c ∉ f := by
  rcases form.field_numeral h with rfl | hnumeral
  · exact List.not_mem_nil
  · exact hnumeral.notMem hc

/-! The bucket of an address. -/

def underscore (c : Char) : Char := if c = '.' || c = ':' then '_' else c

/-- The string that `normalizeIp` gives for a text of this form. -/
def Form.bucket (form : Form) : List Char :=
  if form = .compressed [] [1] then "localhost".toList else ['_'].intercalate form.fields

theorem map_underscore_field {form : Form} {f : List Char} (hf : f ∈ form.fields) :
    f.map underscore = f := by
  have hsame : ∀ a ∈ f, underscore a = id a := by
    intro a ha
    have hdot : a ≠ '.' := fun h => Form.notMem_field hf (by simp) (h ▸ ha)
    have hcolon : a ≠ ':' := fun h => Form.notMem_field hf (by simp) (h ▸ ha)
    simp [underscore, hdot, hcolon]
  rw [List.map_congr_left hsame, List.map_id]

theorem Form.map_underscore (form : Form) {c : Char} (hc : underscore c = '_') :
    ([c].intercalate form.fields).map underscore = ['_'].intercalate form.fields := by
  have hfields : form.fields.map (List.map underscore) = form.fields.map id :=
    List.map_congr_left fun f hf => map_underscore_field hf
  rw [map_intercalate, hc, hfields, List.map_id]

theorem dot_mem_of_isDottedQuad {l : List Char} (h : isDottedQuad l = true) : '.' ∈ l := by
  by_contra hdot
  rw [isDottedQuad, List.splitOn_eq_singleton hdot] at h
  cases h

theorem normalizeIp_of_not_mapped {l : List Char} (hne : l ≠ []) (hloopback : l ≠ "::1".toList)
    (hmapped : l.take 7 = "::ffff:".toList → '.' ∉ l.drop 7) :
    normalizeIp (String.ofList l) = String.ofList (l.map underscore) := by
  have hempty : String.ofList l ≠ "" := by
    intro h
    apply hne
    simpa using congrArg String.toList h
  have hother : String.ofList l ≠ "::1" := by
    intro h
    apply hloopback
    simpa using congrArg String.toList h
  have hquad : ¬ (decide (l.take 7 = "::ffff:".toList) && isDottedQuad (l.drop 7)) = true := by
    intro h
    rw [Bool.and_eq_true, decide_eq_true_eq] at h
    exact hmapped h.1 (dot_mem_of_isDottedQuad h.2)
  rw [normalizeIp, if_neg hempty, if_neg hother]
  simp only [String.toList_ofList, if_neg hquad]
  rfl

theorem isDottedQuad_octets (ip : Ipv4) : isDottedQuad (['.'].intercalate ip.octets) = true := by
  have hsplit : (['.'].intercalate ip.octets).splitOn '.' = ip.octets := by
    apply List.splitOn_intercalate
    · exact fun f hf => (ip.octets_numeral f hf).notMem (by simp)
    · exact fun h => by cases h
  have hdecimal : ∀ n, (!(decimal n).isEmpty && (decimal n).all Char.isDigit) = true := by
    intro n
    have hall : (decimal n).all Char.isDigit = true :=
      List.all_eq_true.mpr fun c hc => decimal_isDigit hc
    simp [decimal_ne_nil, hall]
  have hdigits : ∀ f ∈ ip.octets, (!f.isEmpty && f.all Char.isDigit) = true := by
    simp only [Ipv4.octets, List.forall_mem_cons, hdecimal, true_and]
    exact fun f hf => by cases hf
  simp only [isDottedQuad, hsplit]
  rw [Bool.and_eq_true, List.all_eq_true]
  exact ⟨rfl, hdigits⟩

theorem normalizeIp_mapped (ip : Ipv4) :
    normalizeIp (String.ofList (Form.mapped ip).text) =
      String.ofList ((['.'].intercalate ip.octets).map underscore) := by
  have htake : (Form.mapped ip).text.take 7 = "::ffff:".toList := by simp [Form.text]
  have hdrop : (Form.mapped ip).text.drop 7 = ['.'].intercalate ip.octets := by simp [Form.text]
  have hempty : String.ofList (Form.mapped ip).text ≠ "" := by
    intro h
    have hlist := congrArg String.toList h
    simp [Form.text] at hlist
  have hother : String.ofList (Form.mapped ip).text ≠ "::1" := by
    intro h
    have hlist := congrArg String.toList h
    simp [Form.text] at hlist
  rw [normalizeIp, if_neg hempty, if_neg hother]
  simp only [String.toList_ofList, htake, hdrop, isDottedQuad_octets, decide_true, Bool.and_true,
    if_true]
  rfl

theorem mem_quad {ip : Ipv4} {c : Char} (h : c ∈ ['.'].intercalate ip.octets) :
    c = '.' ∨ c.isDigit = true := by
  rcases mem_of_mem_intercalate h with hdot | ⟨f, hf, hc⟩
  · exact .inl hdot
  · obtain ⟨n, rfl⟩ : ∃ n, f = decimal n := by
      simp only [Ipv4.octets, List.mem_cons, List.not_mem_nil, or_false] at hf
      rcases hf with rfl | rfl | rfl | rfl
      · exact ⟨_, rfl⟩
      · exact ⟨_, rfl⟩
      · exact ⟨_, rfl⟩
      · exact ⟨_, rfl⟩
    exact .inr (decimal_isDigit hc)

theorem dot_mem_quad (ip : Ipv4) : '.' ∈ ['.'].intercalate ip.octets := by
  simp [Ipv4.octets]

/-- A text with octets and no letter is normalised as it is. -/
theorem normalizeIp_quad {l : List Char} (hdot : '.' ∈ l) (hletter : 'f' ∉ l) :
    normalizeIp (String.ofList l) = String.ofList (l.map underscore) := by
  apply normalizeIp_of_not_mapped (List.ne_nil_of_mem hdot)
  · intro h
    rw [h] at hdot
    simp at hdot
  · intro h
    have hmem : 'f' ∈ l.take 7 := by
      rw [h]
      simp
    exact absurd (List.mem_of_mem_take hmem) hletter

/-- A text without octets is normalised as it is, unless it is that of the loopback. -/
theorem normalizeIp_hex {form : Form} (hcolon : ':' ∈ [':'].intercalate form.fields)
    (hother : form.sides ≠ (Form.compressed [] [1]).sides) :
    normalizeIp (String.ofList ([':'].intercalate form.fields)) =
      String.ofList (['_'].intercalate form.fields) := by
  rw [← form.map_underscore (c := ':') rfl]
  have hcolons : ∀ {form : Form}, ∀ f ∈ form.fields, ':' ∉ f :=
    fun f hf => Form.notMem_field hf (by simp)
  apply normalizeIp_of_not_mapped (List.ne_nil_of_mem hcolon)
  · intro h
    have hloopback : "::1".toList = [':'].intercalate (Form.compressed [] [1]).fields := by decide
    rw [hloopback] at h
    apply hother
    apply Form.sides_of_fields
    apply intercalate_inj hcolons hcolons _ (by decide) h
    intro hnil
    rw [hnil] at hcolon
    cases hcolon
  · intro _ hmem
    rcases mem_of_mem_intercalate (List.mem_of_mem_drop hmem) with hdot | ⟨f, hf, hc⟩
    · cases hdot
    · exact absurd hc (Form.notMem_field hf (by simp))

theorem Address.length_of_form_full {x : Address} (h : x.form = .full gs) : gs.length = 8 := by
  cases x with
  | v4 ip => cases h
  | v6 ip =>
    have hgroups : gs = ip.groups := by
      rw [← ip.groups_form, show ip.form = .full gs from h]
      rfl
    rw [hgroups]
    rfl

theorem normalizeIp_text (x : Address) : normalizeIp x.text = String.ofList x.form.bucket := by
  have hletter : ∀ ip : Ipv4, 'f' ∉ ['.'].intercalate ip.octets := by
    intro ip hmem
    rcases mem_quad hmem with h | h
    · cases h
    · cases h
  rw [Address.text]
  cases hform : x.form with
  | dotted ip =>
    rw [Form.bucket, if_neg (fun h => by cases h), ← (Form.dotted ip).map_underscore (c := '.') rfl]
    exact normalizeIp_quad (dot_mem_quad ip) (hletter ip)
  | mapped ip =>
    rw [normalizeIp_mapped, Form.bucket, if_neg (fun h => by cases h)]
    exact congrArg String.ofList ((Form.mapped ip).map_underscore (c := '.') rfl)
  | compatible ip =>
    have hdot : '.' ∈ (Form.compatible ip).text := List.mem_append_right _ (dot_mem_quad ip)
    have hnone : 'f' ∉ (Form.compatible ip).text := by
      intro hmem
      rcases List.mem_append.mp hmem with h | h
      · simp at h
      · exact hletter ip h
    have hquad := (Form.dotted ip).map_underscore (c := '.') rfl
    have hmap : (Form.compatible ip).text.map underscore = '_' :: '_' :: ['_'].intercalate ip.octets :=
      congrArg (['_', '_'] ++ ·) hquad
    rw [normalizeIp_quad hdot hnone, Form.bucket, if_neg (fun h => by cases h), hmap]
    rfl
  | full gs =>
    have hlength : 2 ≤ (Form.full gs).fields.length := by
      show 2 ≤ (gs.map hex).length
      rw [List.length_map, Address.length_of_form_full hform]
      omega
    rw [Form.bucket, if_neg (fun h => by cases h)]
    apply normalizeIp_hex (mem_intercalate hlength)
    intro h
    cases congrArg Prod.fst h
  | compressed pre post =>
    by_cases hloopback : Form.compressed pre post = .compressed [] [1]
    · rw [Form.bucket, if_pos hloopback, hloopback]
      decide
    · have hlength : 2 ≤ (Form.compressed pre post).fields.length :=
        two_le_length_gapped [] (pre.map hex) (post.map hex)
      rw [Form.bucket, if_neg hloopback]
      apply normalizeIp_hex (mem_intercalate hlength)
      intro h
      apply hloopback
      obtain ⟨hpre, hpost⟩ := Prod.mk.inj h
      rw [map_hex_inj (Option.some.inj hpre), map_hex_inj hpost]

/-! Two addresses. -/

theorem Address.fields_ne_nil (x : Address) : x.form.fields ≠ [] := by
  cases hform : x.form with
  | dotted ip => exact List.cons_ne_nil _ _
  | mapped ip => exact List.cons_ne_nil _ _
  | compatible ip => exact List.cons_ne_nil _ _
  | full gs =>
    intro h
    have hgs := length_of_form_full hform
    rw [List.map_eq_nil_iff.mp (show gs.map hex = [] from h)] at hgs
    cases hgs
  | compressed pre post => exact List.append_ne_nil_of_right_ne_nil _ (List.cons_ne_nil _ _)

/-- Two forms with the same bucket have the same numerals before and after the gap. -/
theorem Form.sides_of_bucket {form form' : Form} (hne : form.fields ≠ []) (hne' : form'.fields ≠ [])
    (h : form.bucket = form'.bucket) : form.sides = form'.sides := by
  have hclean : ∀ {form : Form}, ∀ f ∈ form.fields, '_' ∉ f :=
    fun f hf => notMem_field hf (by simp)
  -- no numeral has an `l`
  have hname : ∀ form : Form, "localhost".toList ≠ ['_'].intercalate form.fields := by
    intro form h
    have hmem : 'l' ∈ ['_'].intercalate form.fields := by
      rw [← h]
      simp
    rcases mem_of_mem_intercalate hmem with hl | ⟨f, hf, hl⟩
    · cases hl
    · exact absurd hl (notMem_field hf (by simp))
  simp only [bucket] at h
  split at h
  · next hform =>
    split at h
    · next hform' => rw [hform, hform']
    · exact absurd h (hname form')
  · split at h
    · exact absurd h.symm (hname form)
    · exact sides_of_fields (intercalate_inj hclean hclean hne hne' h)

theorem Address.bucket_unmapped (x : Address) : x.unmapped.form.bucket = x.form.bucket := by
  cases x with
  | v4 ip => rfl
  | v6 ip =>
    simp only [Address.unmapped]
    split
    · next h =>
      rw [show (Address.v6 ip).form = .mapped ip.tail from ip.form_mapped h]
      rfl
    · rfl

theorem Address.unmapped_form_ne_mapped (x : Address) (ip : Ipv4) : x.unmapped.form ≠ .mapped ip := by
  cases x with
  | v4 ip' => exact fun h => by cases h
  | v6 ip' =>
    simp only [unmapped]
    split
    · exact fun h => by cases h
    · next htake => exact fun h => htake (Ipv6.take_of_form_mapped h)

theorem Address.unmapped_v6 (h : ∀ ip, x.form ≠ .mapped ip) : (v6 x).unmapped = .v6 x :=
  if_neg fun htake => h x.tail (x.form_mapped htake)

theorem Address.eq_of_unmapped_v6 {z : Address} (h : z.unmapped = .v6 x) : z = .v6 x := by
  cases z with
  | v4 ip => cases h
  | v6 ip =>
    simp only [unmapped] at h
    split at h
    · cases h
    · exact h

theorem octets_ne_groups (ip : Ipv4) (h : gs.length = 8) : ip.octets ≠ gs.map hex := by
  intro heq
  have hlength := congrArg List.length heq
  rw [List.length_map, h] at hlength
  cases hlength

/-- Four octets after a gap are also four groups after a gap. -/
theorem sameDigits_of_sides {x y : Address} (hx : x.form = .compatible ip)
    (hy : y.form = .compressed pre post)
    (h : (Form.compatible ip).sides = (Form.compressed pre post).sides) : SameDigits x y := by
  obtain ⟨hpre, hpost⟩ := Prod.mk.inj h
  have hnil : pre = [] := List.map_eq_nil_iff.mp (Option.some.inj hpre).symm
  have hgroups : post = [Octet.asGroup ip.a, Octet.asGroup ip.b, Octet.asGroup ip.c,
      Octet.asGroup ip.d] := by
    apply map_hex_inj
    rw [← hpost]
    simp [Ipv4.octets, hex_asGroup]
  subst hnil hgroups
  cases x with
  | v4 ip' => cases hx
  | v6 x =>
    cases y with
    | v4 ip' => cases hy
    | v6 y =>
      have ha : ip.a ≠ 0 := by
        intro ha
        rw [Address.form, ha] at hy
        exact Ipv6.head_ne_of_form_compressed hy (by decide)
      refine ⟨ip, ha, ?_, ?_⟩
      · rw [Address.form] at hx
        rw [Ipv6.eq_of_form_compatible hx]
      · apply Address.form_inj
        rw [hy, Address.form, Ipv6.form_ofDigits ha]

theorem Address.eq_or_sameDigits {x y : Address} (hx : ∀ ip, x.form ≠ .mapped ip)
    (hy : ∀ ip, y.form ≠ .mapped ip) (h : x.form.sides = y.form.sides) :
    x = y ∨ SameDigits x y ∨ SameDigits y x := by
  have hgap : ∀ {a : List (List Char)} {b b' : List (List Char)}, (none, b) ≠ (some a, b') :=
    fun h => by cases h
  cases hfx : x.form with
  | mapped ip => exact absurd hfx (hx ip)
  | dotted ip =>
    cases hfy : y.form with
    | mapped ip' => exact absurd hfy (hy ip')
    | dotted ip' =>
      rw [hfx, hfy] at h
      exact .inl (form_inj (by rw [hfx, hfy, Ipv4.octets_inj (Prod.mk.inj h).2]))
    | full gs =>
      rw [hfx, hfy] at h
      exact absurd (Prod.mk.inj h).2 (octets_ne_groups ip (length_of_form_full hfy))
    | compatible ip' => rw [hfx, hfy] at h; exact absurd h hgap
    | compressed pre post => rw [hfx, hfy] at h; exact absurd h hgap
  | full gs =>
    cases hfy : y.form with
    | mapped ip' => exact absurd hfy (hy ip')
    | dotted ip' =>
      rw [hfx, hfy] at h
      exact absurd (Prod.mk.inj h).2.symm (octets_ne_groups ip' (length_of_form_full hfx))
    | full gs' =>
      rw [hfx, hfy] at h
      exact .inl (form_inj (by rw [hfx, hfy, map_hex_inj (Prod.mk.inj h).2]))
    | compatible ip' => rw [hfx, hfy] at h; exact absurd h hgap
    | compressed pre post => rw [hfx, hfy] at h; exact absurd h hgap
  | compatible ip =>
    cases hfy : y.form with
    | mapped ip' => exact absurd hfy (hy ip')
    | dotted ip' => rw [hfx, hfy] at h; exact absurd h.symm hgap
    | full gs => rw [hfx, hfy] at h; exact absurd h.symm hgap
    | compatible ip' =>
      rw [hfx, hfy] at h
      exact .inl (form_inj (by rw [hfx, hfy, Ipv4.octets_inj (Prod.mk.inj h).2]))
    | compressed pre post =>
      rw [hfx, hfy] at h
      exact .inr (.inl (sameDigits_of_sides hfx hfy h))
  | compressed pre post =>
    cases hfy : y.form with
    | mapped ip' => exact absurd hfy (hy ip')
    | dotted ip' => rw [hfx, hfy] at h; exact absurd h.symm hgap
    | full gs => rw [hfx, hfy] at h; exact absurd h.symm hgap
    | compatible ip' =>
      rw [hfx, hfy] at h
      exact .inr (.inr (sameDigits_of_sides hfy hfx h.symm))
    | compressed pre' post' =>
      rw [hfx, hfy] at h
      obtain ⟨hpre, hpost⟩ := Prod.mk.inj h
      exact .inl (form_inj (by rw [hfx, hfy, map_hex_inj (Option.some.inj hpre), map_hex_inj hpost]))

variable {a b : Address}

theorem SameDigits.of_unmapped (h : SameDigits a.unmapped b.unmapped) : SameDigits a b := by
  obtain ⟨ip, ha, hcompatible, hdigits⟩ := h
  exact ⟨ip, ha, Address.eq_of_unmapped_v6 hcompatible, Address.eq_of_unmapped_v6 hdigits⟩

theorem SameDigits.bucket_eq (h : SameDigits a b) : a.form.bucket = b.form.bucket := by
  obtain ⟨ip, ha, rfl, rfl⟩ := h
  have hother : Form.compressed [] [Octet.asGroup ip.a, Octet.asGroup ip.b, Octet.asGroup ip.c,
      Octet.asGroup ip.d] ≠ .compressed [] [1] := by
    intro h
    cases (List.cons.inj (Form.compressed.inj h).2).2
  rw [Address.form, Address.form, Ipv6.form_compatible ha, Ipv6.form_ofDigits ha, Form.bucket,
    Form.bucket, if_neg hother, if_neg (fun h => by cases h)]
  simp [Form.fields, Form.sides, Ipv4.octets, hex_asGroup]

/-- What `normalizeIp` identifies. -/
theorem normalizeIp_eq_iff (a b : Address) : normalizeIp a.text = normalizeIp b.text ↔
    a.unmapped = b.unmapped ∨ SameDigits a b ∨ SameDigits b a := by
  rw [normalizeIp_text, normalizeIp_text, String.ofList_inj]
  constructor
  · intro h
    rw [← a.bucket_unmapped, ← b.bucket_unmapped] at h
    have hsides := Form.sides_of_bucket a.unmapped.fields_ne_nil b.unmapped.fields_ne_nil h
    rcases Address.eq_or_sameDigits a.unmapped_form_ne_mapped b.unmapped_form_ne_mapped hsides with
      heq | hab | hba
    · exact .inl heq
    · exact .inr (.inl hab.of_unmapped)
    · exact .inr (.inr hba.of_unmapped)
  · rintro (heq | hab | hba)
    · rw [← a.bucket_unmapped, ← b.bucket_unmapped, heq]
    · exact hab.bucket_eq
    · exact hba.bucket_eq.symm

theorem Address.unmapped_loopback : (v6 .loopback).unmapped = .v6 .loopback := by
  apply unmapped_v6
  intro ip h
  rw [Ipv6.form_loopback] at h
  cases h

/-- What the comments identify. -/
theorem host_eq_iff (a b : Address) : a.host = b.host ↔
    a.unmapped = b.unmapped ∨ Loopbacks a b ∨ Loopbacks b a := by
  rw [Address.host, Address.host]
  by_cases ha : a = .v6 .loopback
  · by_cases hb : b = .v6 .loopback
    · rw [ha, hb]
      exact iff_of_true rfl (.inl rfl)
    · rw [if_pos ha, if_neg hb]
      constructor
      · intro h
        exact .inr (.inl ⟨ha, h.symm⟩)
      · rintro (h | h | h)
        · rw [ha, Address.unmapped_loopback] at h
          exact absurd (Address.eq_of_unmapped_v6 h.symm) hb
        · exact h.2.symm
        · exact absurd h.1 hb
  · by_cases hb : b = .v6 .loopback
    · rw [if_neg ha, if_pos hb]
      constructor
      · intro h
        exact .inr (.inr ⟨hb, h⟩)
      · rintro (h | h | h)
        · rw [hb, Address.unmapped_loopback] at h
          exact absurd (Address.eq_of_unmapped_v6 h) ha
        · exact absurd h.1 ha
        · exact h.2
    · rw [if_neg ha, if_neg hb]
      constructor
      · exact .inl
      · rintro (h | h | h)
        · exact h
        · exact absurd h.1 ha
        · exact absurd h.1 hb

theorem Loopbacks.unmapped_ne (h : Loopbacks a b) : a.unmapped ≠ b.unmapped := by
  rw [h.1, h.2, Address.unmapped_loopback]
  exact fun h => by cases h

theorem SameDigits.unmapped_ne (h : SameDigits a b) : a.unmapped ≠ b.unmapped := by
  obtain ⟨ip, ha, rfl, rfl⟩ := h
  have hcompatible := Ipv6.form_compatible ha
  have hdigits := Ipv6.form_ofDigits ha
  rw [Address.unmapped_v6 fun ip h => (by rw [hcompatible] at h; cases h),
    Address.unmapped_v6 fun ip h => (by rw [hdigits] at h; cases h)]
  intro h
  rw [Address.v6.inj h, hdigits] at hcompatible
  cases hcompatible

/-- Neither of the two is a loopback of IPv6. -/
theorem SameDigits.not_loopbacks (h : SameDigits a b) : ¬ (Loopbacks a b ∨ Loopbacks b a) := by
  obtain ⟨ip, ha, rfl, rfl⟩ := h
  rintro (h | h)
  · exact Group.join_ne_zero ha (congrArg Ipv6.g6 (Address.v6.inj h.1))
  · exact Octet.asGroup_ne_zero ha (congrArg Ipv6.g4 (Address.v6.inj h.1))

/-- Two addresses share a bucket exactly when they are the same host, except for the loopback of
    IPv6 and that of IPv4, which do not, and for the addresses `::a.b.c.d` and `::a:b:c:d` with the
    same digits, which do. -/
theorem one_bucket_iff (a b : Address) :
    (normalizeIp a.text = normalizeIp b.text ↔ a.host = b.host) ↔
      ¬ (Loopbacks a b ∨ Loopbacks b a) ∧ ¬ (SameDigits a b ∨ SameDigits b a) := by
  rw [normalizeIp_eq_iff, host_eq_iff]
  have hdigits : SameDigits a b ∨ SameDigits b a →
      a.unmapped ≠ b.unmapped ∧ ¬ (Loopbacks a b ∨ Loopbacks b a) := by
    rintro (h | h)
    · exact ⟨h.unmapped_ne, h.not_loopbacks⟩
    · exact ⟨h.unmapped_ne.symm, fun hor => h.not_loopbacks hor.symm⟩
  have hloopbacks : Loopbacks a b ∨ Loopbacks b a → a.unmapped ≠ b.unmapped := by
    rintro (h | h)
    · exact h.unmapped_ne
    · exact h.unmapped_ne.symm
  constructor
  · intro hiff
    refine ⟨fun hl => ?_, fun hs => ?_⟩
    · rcases hiff.mpr (.inr hl) with heq | hs
      · exact hloopbacks hl heq
      · exact (hdigits hs).2 hl
    · rcases hiff.mp (.inr hs) with heq | hl
      · exact (hdigits hs).1 heq
      · exact (hdigits hs).2 hl
  · rintro ⟨hl, hs⟩
    rw [or_iff_left hl, or_iff_left hs]

/-- The loopback of IPv6 and that of IPv4 denote the same host and have two buckets. -/
theorem loopbacks_two_buckets :
    (Address.v6 .loopback).text = "::1" ∧ (Address.v4 .loopback).text = "127.0.0.1" ∧
      (Address.v6 .loopback).host = (Address.v4 .loopback).host ∧
      normalizeIp "::1" = "localhost" ∧ normalizeIp "127.0.0.1" = "127_0_0_1" := by
  decide +kernel

example : (Address.v6 (.compatible ⟨1, 2, 3, 4⟩)).text = "::1.2.3.4" ∧
    (Address.v6 ⟨0, 0, 0, 0, 1, 2, 3, 4⟩).text = "::1:2:3:4" ∧
    normalizeIp "::1.2.3.4" = normalizeIp "::1:2:3:4" := by
  decide +kernel

end CarAuction
