import ItexDemo.Lib.Decimal
import ItexDemo.DemoManager.NetAddress

/-!
# The addresses that may add order books

The prefix that `is_local_net_address` compares reaches to the first point, so that it tells the
first octet and nothing else. Two of the four private networks do not fill the addresses with their
first octet.
-/

namespace DemoManager

open Http (Str)

/-! ## Addresses and networks -/

/-- An IPv4 address. -/
structure IPv4 where
  a : UInt8
  b : UInt8
  c : UInt8
  d : UInt8
  deriving DecidableEq

namespace IPv4

/-- The address as a number of 32 bits. -/
def number (addr : IPv4) : Nat :=
  ((addr.a.toNat * 256 + addr.b.toNat) * 256 + addr.c.toNat) * 256 + addr.d.toNat

/-- The text that `boost::asio::ip::address_v4::to_string` makes. -/
def text (addr : IPv4) : Str :=
  Decimal.digits addr.a.toNat ++ '.' :: (Decimal.digits addr.b.toNat ++ '.' ::
    (Decimal.digits addr.c.toNat ++ '.' :: Decimal.digits addr.d.toNat))

end IPv4

/-- The addresses that agree with `base` in the first `length` bits. -/
structure Network where
  base : IPv4
  length : Nat
  deriving DecidableEq

/-- The address is in the network. -/
def Network.Contains (net : Network) (addr : IPv4) : Prop :=
  addr.number / 2 ^ (32 - net.length) = net.base.number / 2 ^ (32 - net.length)

/-- `10.0.0.0/8`. -/
def net10 : Network := ⟨⟨10, 0, 0, 0⟩, 8⟩

/-- `127.0.0.0/8`. -/
def net127 : Network := ⟨⟨127, 0, 0, 0⟩, 8⟩

/-- `172.16.0.0/12`. -/
def net172 : Network := ⟨⟨172, 16, 0, 0⟩, 12⟩

/-- `192.168.0.0/16`. -/
def net192 : Network := ⟨⟨192, 168, 0, 0⟩, 16⟩

/-- The address belongs to a local network. -/
def IPv4.Local (addr : IPv4) : Prop :=
  net10.Contains addr ∨ net127.Contains addr ∨ net172.Contains addr ∨ net192.Contains addr

section Octets

variable (addr : IPv4)

theorem contains_eight (octet : UInt8) :
    (Network.mk ⟨octet, 0, 0, 0⟩ 8).Contains addr ↔ addr.a = octet := by
  have := addr.b.toNat_lt
  have := addr.c.toNat_lt
  have := addr.d.toNat_lt
  have hzero : (0 : UInt8).toNat = 0 := rfl
  rw [← UInt8.toNat_inj]
  simp only [Network.Contains, IPv4.number, hzero]
  omega

theorem contains_net172 :
    net172.Contains addr ↔ addr.a = 172 ∧ 16 ≤ addr.b.toNat ∧ addr.b.toNat < 32 := by
  have := addr.b.toNat_lt
  have := addr.c.toNat_lt
  have := addr.d.toNat_lt
  have hbase : net172.base.number / 2 ^ (32 - net172.length) = 172 * 16 + 1 := by decide
  have h172 : (172 : UInt8).toNat = 172 := rfl
  rw [Network.Contains, hbase, ← UInt8.toNat_inj, h172]
  simp only [net172, IPv4.number]
  omega

theorem contains_net192 : net192.Contains addr ↔ addr.a = 192 ∧ addr.b = 168 := by
  have := addr.b.toNat_lt
  have := addr.c.toNat_lt
  have := addr.d.toNat_lt
  have hbase : net192.base.number / 2 ^ (32 - net192.length) = 192 * 256 + 168 := by decide
  have h192 : (192 : UInt8).toNat = 192 := rfl
  have h168 : (168 : UInt8).toNat = 168 := rfl
  rw [Network.Contains, hbase, ← UInt8.toNat_inj, ← UInt8.toNat_inj, h192, h168]
  simp only [net192, IPv4.number]
  omega

theorem local_iff : addr.Local ↔ addr.a = 10 ∨ addr.a = 127 ∨ net172.Contains addr ∨
    net192.Contains addr := by
  have h10 : net10.Contains addr ↔ addr.a = 10 := contains_eight addr 10
  have h127 : net127.Contains addr ↔ addr.a = 127 := contains_eight addr 127
  rw [IPv4.Local, h10, h127]

end Octets

/-! ## The text of an address -/

theorem head_point (rest : Str) : ∀ c, ('.' :: rest).head? = some c → ¬ c.isDigit := by
  intro c hc
  cases hc
  decide

/-- A prefix with a point behind it is compared with the whole first octet. -/
theorem take_text_iff (addr : IPv4) {octet : Str} (h : ∀ c ∈ octet, c.isDigit = true) :
    addr.text.take (octet.length + 1) = octet ++ ['.'] ↔ Decimal.digits addr.a.toNat = octet := by
  constructor
  · intro htake
    have htext : addr.text = octet ++ '.' :: addr.text.drop (octet.length + 1) := by
      have hsplit := List.take_append_drop (octet.length + 1) addr.text
      rw [htake, List.append_assoc] at hsplit
      exact hsplit.symm
    have hfirst : addr.text.takeWhile Char.isDigit = Decimal.digits addr.a.toNat :=
      Decimal.takeWhile_digits _ _ (head_point _)
    rw [htext, List.takeWhile_append_of_pos h, List.takeWhile_cons_of_neg (by decide),
      List.append_nil] at hfirst
    exact hfirst.symm
  · intro hdigits
    rw [IPv4.text, hdigits, List.take_length_add_append]
    rfl

theorem digits_eq_iff {x octet : UInt8} : Decimal.digits x.toNat = Decimal.digits octet.toNat ↔
    x = octet := by
  constructor
  · intro h
    exact UInt8.toNat_inj.mp (Decimal.digits_injective h)
  · intro h
    rw [h]

theorem take_text_octet (addr : IPv4) (octet : UInt8) :
    addr.text.take ((Decimal.digits octet.toNat).length + 1) = Decimal.digits octet.toNat ++ ['.'] ↔
      addr.a = octet := by
  rw [take_text_iff addr fun c hc => Decimal.isDigit_of_mem_digits hc, digits_eq_iff]

theorem isLocalNetAddress_text (addr : IPv4) : isLocalNetAddress addr.text = true ↔
    addr.a = 10 ∨ addr.a = 127 ∨ addr.a = 172 ∨ addr.a = 192 := by
  have h10 : addr.text.take 3 = "10.".toList ↔ addr.a = 10 := take_text_octet addr 10
  have h127 : addr.text.take 4 = "127.".toList ↔ addr.a = 127 := take_text_octet addr 127
  have h172 : addr.text.take 4 = "172.".toList ↔ addr.a = 172 := take_text_octet addr 172
  have h192 : addr.text.take 4 = "192.".toList ↔ addr.a = 192 := take_text_octet addr 192
  simp only [isLocalNetAddress, List.take_take, Bool.or_eq_true, decide_eq_true_eq, or_assoc]
  rw [show min 3 4 = 3 from rfl, h10, h127, h172, h192]

/-! ## Requests -/

namespace HttpServerHandler

variable {D : Type} [LinearOrder D] [Zero D] (sorter : StdSort (D × D)) (ofId : UInt64 → D)

/-- A request from an address gets past `is_local_net_address` only when the address is local, and
otherwise it is answered with `403` and leaves the queue and the workset as they were. -/
def AcceptsOnlyLocal (addr : IPv4) : Prop :=
  ∀ (persist_workset_to_database : Bool) (sinks : Sinks D) (req : BookRequest D),
    req.remote_endpoint.address = addr.text →
    ((checkLocalNetAddress req.remote_endpoint Http.Response.cleared).1 = true → addr.Local) ∧
    (¬ addr.Local → ∃ response,
      addOrderbookTo sorter ofId persist_workset_to_database sinks req = (sinks, some response) ∧
        response.status_code_ = .code403Forbidden ∧
        response.body_ = forbiddenBody req.remote_endpoint)

/-- The part of its first octet that belongs to a local network has the address in it. -/
def InLocalPart (addr : IPv4) : Prop :=
  (addr.a = 172 → net172.Contains addr) ∧ (addr.a = 192 → net192.Contains addr)

section Addresses

variable {addr : IPv4}

theorem inLocalPart_of_local (h : addr.Local) : InLocalPart addr := by
  rw [local_iff, contains_net172, contains_net192] at h
  rw [InLocalPart, contains_net172, contains_net192]
  constructor
  · intro ha
    rw [ha] at h
    rcases h with h | h | h | h
    · exact absurd h (by decide)
    · exact absurd h (by decide)
    · exact ⟨ha, h.2⟩
    · exact absurd h.1 (by decide)
  · intro ha
    rw [ha] at h
    rcases h with h | h | h | h
    · exact absurd h (by decide)
    · exact absurd h (by decide)
    · exact absurd h.1 (by decide)
    · exact ⟨ha, h.2⟩

/-- An address that gets past the check is local unless it lies beside the local part. -/
theorem local_of_inLocalPart (h : InLocalPart addr) (hcheck : isLocalNetAddress addr.text = true) :
    addr.Local := by
  rw [local_iff]
  rcases (isLocalNetAddress_text addr).mp hcheck with ha | ha | ha | ha
  · exact Or.inl ha
  · exact Or.inr (Or.inl ha)
  · exact Or.inr (Or.inr (Or.inl (h.1 ha)))
  · exact Or.inr (Or.inr (Or.inr (h.2 ha)))

theorem check_of_local {remote_endpoint : RemoteEndpoint} {resp : Http.Response}
    (h : isLocalNetAddress remote_endpoint.address = true) :
    checkLocalNetAddress remote_endpoint resp = (true, resp) := if_pos h

theorem check_of_not_local {remote_endpoint : RemoteEndpoint} {resp : Http.Response}
    (h : ¬ isLocalNetAddress remote_endpoint.address = true) :
    checkLocalNetAddress remote_endpoint resp = (false, { resp with
      status_code_ := .code403Forbidden, body_ := forbiddenBody remote_endpoint }) := if_neg h

/-- A request that does not get past the check changes nothing. -/
theorem addOrderbookTo_of_not_local {persist_workset_to_database : Bool} {sinks : Sinks D}
    {req : BookRequest D} (h : ¬ isLocalNetAddress req.remote_endpoint.address = true) :
    addOrderbookTo sorter ofId persist_workset_to_database sinks req =
      (sinks, some { Http.Response.cleared with
        status_code_ := .code403Forbidden, body_ := forbiddenBody req.remote_endpoint }) := by
  unfold addOrderbookTo
  rw [check_of_not_local h]

theorem AcceptsOnlyLocal.of_inLocalPart (h : InLocalPart addr) :
    AcceptsOnlyLocal sorter ofId addr := by
  intro persist_workset_to_database sinks req haddr
  constructor
  · intro hcheck
    by_cases hlocal : isLocalNetAddress req.remote_endpoint.address = true
    · rw [haddr] at hlocal
      exact local_of_inLocalPart h hlocal
    · rw [check_of_not_local hlocal] at hcheck
      cases hcheck
  · intro hnot
    have hlocal : ¬ isLocalNetAddress req.remote_endpoint.address = true := by
      rw [haddr]
      exact fun hlocal => hnot (local_of_inLocalPart h hlocal)
    exact ⟨_, addOrderbookTo_of_not_local sorter ofId hlocal, rfl, rfl⟩

/-- A request with an empty book. -/
def emptyRequest (addr : IPv4) : BookRequest D where
  remote_endpoint := { address := addr.text, port := 0 }
  security_id := 0
  timestamp := 0
  prices := []
  volumes := []

theorem AcceptsOnlyLocal.inLocalPart (h : AcceptsOnlyLocal sorter ofId addr) :
    InLocalPart addr := by
  have hrequest := (h false { queue := [], workset := [] } (emptyRequest addr) rfl).1
  have hlocal (hcheck : isLocalNetAddress addr.text = true) : addr.Local :=
    hrequest (congrArg Prod.fst (check_of_local hcheck))
  constructor
  · intro ha
    have hcheck := (isLocalNetAddress_text addr).mpr (Or.inr (Or.inr (Or.inl ha)))
    exact (inLocalPart_of_local (hlocal hcheck)).1 ha
  · intro ha
    have hcheck := (isLocalNetAddress_text addr).mpr (Or.inr (Or.inr (Or.inr ha)))
    exact (inLocalPart_of_local (hlocal hcheck)).2 ha

end Addresses

/-- Only local clients are accepted, as far as the address is not in `172.0.0.0/8` or `192.0.0.0/8`
outside of the local networks there. -/
theorem acceptsOnlyLocal_iff (addr : IPv4) : AcceptsOnlyLocal sorter ofId addr ↔ InLocalPart addr :=
  ⟨AcceptsOnlyLocal.inLocalPart sorter ofId, AcceptsOnlyLocal.of_inLocalPart sorter ofId⟩

/-- A book with one bid and one ask. -/
def publicRequest : BookRequest Int where
  remote_endpoint := { address := "172.32.0.1".toList, port := 80 }
  security_id := 7
  timestamp := 100
  prices := [11, 10]
  volumes := [-2, 3]

/-- The public address `172.32.0.1` adds an order book. -/
theorem public_address_accepted :
    ¬ AcceptsOnlyLocal (.insertion (Int × Int)) (fun id => id.toNat) ⟨172, 32, 0, 1⟩ := by
  intro h
  have hpublic : ¬ (IPv4.mk 172 32 0 1).Local := by
    rw [local_iff, contains_net172, contains_net192]
    decide
  have hpushed : (addOrderbookTo (.insertion (Int × Int)) (fun id => id.toNat) true
      { queue := [], workset := [] } publicRequest).1.workset.length = 1 := by
    decide +kernel
  obtain ⟨response, hanswer, -⟩ := (h true { queue := [], workset := [] } publicRequest
    (by decide +kernel)).2 hpublic
  rw [hanswer] at hpushed
  cases hpushed

end HttpServerHandler

end DemoManager
