import Mathlib

/-! What one round of the phone's reconnect loop dials. Discovery may answer with any records;
their addresses are merged with the remembered ones, sorted by family and cut to four. -/

namespace OmniBridge.Connection

open List Option

inductive Ladder where
  | TRANSIENT
  | SECURITY
  deriving DecidableEq

inductive DialResult where
  | established
  | transient
  | security
  | terminal

inductive Outcome where
  | sessionEnded
  | failed (ladder : Ladder)
  | terminal
  deriving DecidableEq

structure Address where
  hostString : String
  port : Int
  deriving DecidableEq

structure Found where
  deviceId : Option String
  address : Address

namespace Endpoints

def MAX_PER_ROUND : Nat := 4
def MAX_DISCOVERED_ADDRESSES : Nat := 6
def WIRE_PROFILE_COUNT : Nat := 2

inductive Family where
  | IPV4
  | IPV6_ROUTABLE
  | IPV6_LINK_LOCAL_SCOPED
  | IPV4_LINK_LOCAL
  | HOSTNAME
  deriving DecidableEq

def Family.ordinal : Family → Nat
  | .IPV4 => 0
  | .IPV6_ROUTABLE => 1
  | .IPV6_LINK_LOCAL_SCOPED => 2
  | .IPV4_LINK_LOCAL => 3
  | .HOSTNAME => 4

-- blanks, letters and digits are those of ASCII from here to `parse`
def trim (text : List Char) : List Char :=
  (text.dropWhile Char.isWhitespace).rdropWhile Char.isWhitespace

def removeSurrounding : List Char → List Char
  | '[' :: rest => if rest.getLast? = some ']' then rest.dropLast else '[' :: rest
  | text => text

def toIntOrNull (radix : Nat) (text : List Char) : Option Int :=
  let digit (c : Char) : Option Nat :=
    (if c.isDigit then some (c.toNat - 48) else if c.isAlpha then some (c.toLower.toNat - 87)
      else none).filter (· < radix)
  let (sign, digits) : Int × List Char := match text with
    | '-' :: rest => (-1, rest)
    | '+' :: rest => (1, rest)
    | _ => (1, text)
  if digits.isEmpty then none
  else ((digits.mapM digit).map fun ds =>
    sign * (ds.foldl (fun n d => n * radix + d) 0 : Nat)).filter
    fun n => -2 ^ 31 ≤ n ∧ n < 2 ^ 31

def classifyIpv6 (literal : List Char) : Option Family :=
  let address := literal.takeWhile (· ≠ '%')
  let compact := address.map Char.toLower
  if compact = "::1".toList ∨ compact = "::".toList then none
  else match toIntOrNull 16 (compact.takeWhile (· ≠ ':')) with
    | none => if compact.take 2 = "::".toList then some .IPV6_ROUTABLE else none
    | some firstHextet =>
      if (firstHextet % 2 ^ 16).toNat &&& 0xff00 = 0xff00 then none
      else if (firstHextet % 2 ^ 16).toNat &&& 0xffc0 = 0xfe80 then
        if (literal.drop (address.length + 1)).isEmpty then none else some .IPV6_LINK_LOCAL_SCOPED
      else some .IPV6_ROUTABLE

def classifyIpv4OrName (literal : List Char) : Option Family :=
  match (literal.splitOn '.').mapM (toIntOrNull 10) with
  | some [a, b, c, d] =>
    if [a, b, c, d].any (fun n => n < 0 ∨ 255 < n) then none
    else if a = 127 ∨ [a, b, c, d] = [0, 0, 0, 0] ∨ 224 ≤ a ∧ a ≤ 239 then none
    else some (if a = 169 ∧ b = 254 then .IPV4_LINK_LOCAL else .IPV4)
  | _ => if literal.any (fun c => c = '/' ∨ c = ' ') then none else some .HOSTNAME

def classify (host : String) : Option Family :=
  let bare := trim (removeSurrounding host.toList)
  if bare.isEmpty then none else if ':' ∈ bare then classifyIpv6 bare else classifyIpv4OrName bare

def parse (text : String) : Option Address :=
  let trimmed := trim text.toList
  let port := trimmed.rtakeWhile (· ≠ ':')
  let host := removeSurrounding (trimmed.take (trimmed.length - port.length - 1))
  if trimmed.length ≤ port.length + 1 ∨ host.isEmpty then none
  else ((toIntOrNull 10 port).filter (fun n => 1 ≤ n ∧ n ≤ 65535)).map
    (fun n => ⟨String.ofList host, n⟩)

/-- All records kept are merged into one device, so an empty list stands for no device. -/
def discover (deviceId : String) (records : List Found) : List Address :=
  let found := (records.filter (fun r => r.deviceId.all (· = deviceId))).take
    (MAX_DISCOVERED_ADDRESSES * WIRE_PROFILE_COUNT)
  (found.map Found.address).eraseDups.take MAX_DISCOVERED_ADDRESSES

section StableSort

variable {α : Type*} {key : α → Nat} {l : List α} {x : α}

theorem filter_insertionSort (k : Nat) :
    (l.insertionSort (key · ≤ key ·)).filter (key · = k) = l.filter (key · = k) := by
  have hsort : (l.filter (key · = k)).Pairwise (key · ≤ key ·) := by
    refine pairwise_of_forall_mem_list fun a ha b hb => ?_
    simp only [mem_filter, decide_eq_true_eq] at ha hb
    omega
  have hsub := (sublist_insertionSort hsort filter_sublist).filter (key · = k)
  rw [List.filter_filter] at hsub
  refine (Sublist.eq_of_length (by simpa using hsub) ?_).symm
  exact ((perm_insertionSort _ l).filter _).length_eq.symm

/-- The sort is stable: before an element stand those of a smaller key, and those of its own key
that stood before it. -/
theorem idxOf_insertionSort [BEq α] [LawfulBEq α] (hx : x ∈ l) :
    (l.insertionSort (key · ≤ key ·)).idxOf x = l.countP (key · < key x) +
      (l.filter (key · = key x)).idxOf x := by
  have hperm := perm_insertionSort (key · ≤ key ·) l
  have hsort : (l.insertionSort (key · ≤ key ·)).Pairwise (key · ≤ key ·) :=
    pairwise_insertionSort _ _
  rw [← filter_insertionSort, ← hperm.countP_eq]
  obtain ⟨before, after, hspl, hnot⟩ := eq_append_cons_of_mem (hperm.mem_iff.mpr hx)
  rw [hspl] at hsort ⊢
  have hbef : ∀ y ∈ before, key y ≤ key x :=
    fun y hy => (pairwise_append.mp hsort).2.2 y hy x mem_cons_self
  have hafter : (x :: after).countP (key · < key x) = 0 := by
    have hhead := (pairwise_cons.mp (pairwise_append.mp hsort).2.1).1
    simpa [countP_eq_zero] using hhead
  have hself : (x :: after).filter (key · = key x) = x :: after.filter (key · = key x) :=
    filter_cons_of_pos (by simp)
  have hlen : before.length = before.countP (key · < key x) + before.countP (key · = key x) := by
    rw [length_eq_countP_add_countP (key · < key x)]
    refine congrArg _ (countP_congr fun y hy => ?_)
    have hy := hbef y hy
    simp only [decide_eq_true_eq]
    omega
  rw [idxOf_append_of_notMem hnot, idxOf_cons_self, countP_append, hafter, filter_append,
    idxOf_append_of_notMem (fun hmem => hnot (mem_of_mem_filter hmem)), hself, idxOf_cons_self,
    ← countP_eq_length_filter]
  exact hlen

end StableSort

section Round

-- the results hold whatever texts count as addresses and however hosts are classified
variable (parse : String → Option Address) (classify : String → Option Family)

def dialable (candidates : List Address) : List (Family × Address) :=
  (candidates.filter (fun a => 1 ≤ a.port ∧ a.port ≤ 65535)).eraseDups.filterMap fun a =>
    (classify a.hostString).map (·, a)

def order (candidates : List Address) : List Address :=
  (((dialable classify candidates).insertionSort (fun x y => x.1.ordinal ≤ y.1.ordinal)).map
    Prod.snd).take MAX_PER_ROUND

/-- How many candidates the sort puts before the address: those of a better family, and those of
its own family that stand before it in the list. -/
def ahead (candidates : List Address) (f : Family) (a : Address) : Nat :=
  (dialable classify candidates).countP (·.1.ordinal < f.ordinal) +
    ((dialable classify candidates).filter (·.1.ordinal = f.ordinal)).idxOf (f, a)

def candidateAddresses (deviceId : String) (addresses : List String) (records : List Found)
    (round : Nat) : List Address :=
  let remembered := addresses.filterMap parse
  if round ≤ 1 ∧ remembered ≠ [] then remembered else remembered ++ discover deviceId records

def dialAll (dial : Address → DialResult) : List Address → Option Ladder → List Address × Outcome
  | [], worst => ([], .failed (worst.getD .TRANSIENT))
  | a :: rest, worst => match dial a with
    | .established => ([a], .sessionEnded)
    | .terminal => ([a], .terminal)
    | .security => (dialAll dial rest (some .SECURITY)).map (a :: ·) id
    | .transient => (dialAll dial rest (worst.or (some .TRANSIENT))).map (a :: ·) id

def runRound (dial : Address → DialResult) (blocked : Bool) (candidates : List Address) :
    List Address × Outcome :=
  if blocked then ([], .terminal) else dialAll dial (order classify candidates) none

variable {parse classify} {dial : Address → DialResult} {candidates : List Address} {a : Address}
  {f : Family}

theorem dialAll_all {as worst} (hterm : (dialAll dial as worst).2 ≠ .terminal)
    (hended : (dialAll dial as worst).2 ≠ .sessionEnded) : (dialAll dial as worst).1 = as := by
  induction as generalizing worst with
  | nil => rfl
  | cons a as ih =>
    unfold dialAll at hterm hended ⊢
    cases hdial : dial a with
    | established => simp [hdial] at hended
    | terminal => simp [hdial] at hterm
    | security | transient =>
      simp only [hdial, Prod.map_snd, id] at hterm hended ⊢
      exact congrArg (a :: ·) (ih hterm hended)

theorem dialAll_transient (as worst) :
    dialAll (fun _ => .transient) as worst = (as, .failed (worst.getD .TRANSIENT)) := by
  induction as generalizing worst with
  | nil => rfl
  | cons a as ih =>
    change (dialAll _ as (worst.or (some .TRANSIENT))).map (a :: ·) id = _
    rw [ih]
    cases worst <;> rfl

theorem mem_dialable (ha : a ∈ candidates) (hport : 1 ≤ a.port ∧ a.port ≤ 65535)
    (hf : classify a.hostString = some f) : (f, a) ∈ dialable classify candidates := by
  refine mem_filterMap.mpr ⟨a, mem_eraseDups.mpr (mem_filter.mpr ⟨ha, ?_⟩), ?_⟩
  · simpa using hport
  · simp [hf]

theorem classify_of_mem (h : (f, a) ∈ dialable classify candidates) :
    classify a.hostString = some f := by
  obtain ⟨_, -, hb⟩ := mem_filterMap.mp h
  obtain ⟨_, hf, heq⟩ := map_eq_some_iff.mp hb
  cases heq
  exact hf

theorem mem_order_iff (ha : (f, a) ∈ dialable classify candidates) :
    a ∈ order classify candidates ↔ ahead classify candidates f a < MAX_PER_ROUND := by
  have hperm := perm_insertionSort (fun x y => x.1.ordinal ≤ y.1.ordinal)
    (dialable classify candidates)
  have hplace : _ = ahead classify candidates f a := @idxOf_insertionSort _ (·.1.ordinal) _ _ _ _ ha
  rw [← hplace, ← mem_take_iff_idxOf_lt (hperm.mem_iff.mpr ha), order, ← map_take, List.mem_map]
  constructor
  · rintro ⟨⟨g, _⟩, hmem, rfl⟩
    have hg := classify_of_mem (hperm.mem_iff.mp (mem_of_mem_take hmem))
    rwa [some.inj ((classify_of_mem ha).symm.trans hg)]
  · exact fun hmem => ⟨_, hmem, rfl⟩

/-- A round that ends without a session and not for good has dialled the remembered address,
whatever the dials give, exactly where fewer than four candidates are sorted before it. -/
theorem remembered_dialled {deviceId text : String} {addresses : List String} {records : List Found}
    {round : Nat} (htext : text ∈ addresses) (ha : parse text = some a)
    (hport : 1 ≤ a.port ∧ a.port ≤ 65535) (hf : classify a.hostString = some f)
    (hcand : candidateAddresses parse deviceId addresses records round = candidates) :
    (∀ dial blocked r, runRound classify dial blocked candidates = r → r.2 ≠ .terminal →
      r.2 = .sessionEnded ∨ a ∈ r.1) ↔ ahead classify candidates f a < MAX_PER_ROUND := by
  have hcandid : a ∈ candidates := by
    have hrem : a ∈ addresses.filterMap parse := mem_filterMap.mpr ⟨text, htext, ha⟩
    rw [← hcand]
    unfold candidateAddresses
    dsimp only
    split
    · exact hrem
    · exact mem_append_left _ hrem
  rw [← mem_order_iff (mem_dialable hcandid hport hf)]
  constructor
  · -- dials that all fail dial all that is ordered, and nothing else
    intro h
    have hround := dialAll_transient (order classify candidates) none
    rcases h (fun _ => .transient) false _ hround (by simp) with hended | hdiall
    · cases hended
    · exact hdiall
  · rintro hmem dial blocked _ rfl hterm
    unfold runRound at hterm ⊢
    split at hterm
    · exact absurd rfl hterm
    · next hopen =>
      rw [if_neg hopen]
      by_cases hended : (dialAll dial (order classify candidates) none).2 = .sessionEnded
      · exact .inl hended
      · rw [dialAll_all hterm hended]
        exact .inr hmem

end Round

/-- The remembered address comes first in its family, however many of it are discovered. -/
theorem remembered_dialled_same_family :
    ⟨"192.168.0.9", 4455⟩ ∈ (runRound classify (fun _ => .transient) false
      (candidateAddresses parse "d" ["192.168.0.9:4455"]
      (["10.0.0.1", "10.0.0.2", "10.0.0.3", "10.0.0.4"].map (fun host => ⟨some "d", ⟨host, 4455⟩⟩))
      2)).1 := by
  refine ((remembered_dialled (f := .IPV4) mem_cons_self ?_ ?_ ?_ rfl).mpr ?_ _ _ _ rfl
    ?_).resolve_left ?_
  all_goals decide +kernel

/-- Four discovered IPv4 addresses, and the remembered IPv6 address is not dialled. -/
theorem remembered_pushed_out :
    parse "[fd00::1]:4455" = some ⟨"fd00::1", 4455⟩ ∧ classify "fd00::1" = some .IPV6_ROUTABLE ∧
      runRound classify (fun _ => .transient) false (candidateAddresses parse "d" ["[fd00::1]:4455"]
        (["10.0.0.1", "10.0.0.2", "10.0.0.3", "10.0.0.4"].map
          (fun host => ⟨some "d", ⟨host, 4455⟩⟩)) 2) =
      (["10.0.0.1", "10.0.0.2", "10.0.0.3", "10.0.0.4"].map (⟨·, 4455⟩), .failed .TRANSIENT) := by
  decide +kernel

end Endpoints

end OmniBridge.Connection
