import XKern.NetCalls

namespace XKern.Net

open FaultTriple Libkern PackedBytes List

/-!
# What the DHCP calls do

For `dhcp_start`, `dhcp_poll` and `dhcp_rx` one lemma each that lists every way the call
can end.  All of them return, whatever the datagram holds.
-/

/-! ## Sending -/

theorem exists_store (pkt : List U8) (offset : Nat) (values : List U8) (size : pkt.length = 272)
    (room : offset + values.length ≤ 272) :
    ∃ after : List U8, checked .buffer (write pkt offset values) = pure after ∧
      after.length = 272 := by
  obtain ⟨after, isAfter, length⟩ := exists_write .buffer pkt offset values (size ▸ room)
  exact ⟨after, isAfter, length.trans size⟩

theorem exists_optPut (pkt : List U8) (n : Nat) (code : U8) (val : List U8)
    (size : pkt.length = 272) (room : n + (2 + val.length) ≤ 32) :
    ∃ after, optPut pkt n code val = pure (after, n + (2 + val.length)) ∧ after.length = 272 := by
  obtain ⟨after, isAfter, length⟩ := exists_store pkt (240 + n)
    (code :: .ofNat 8 val.length :: val) size
    (by rw [length_cons, length_cons]; omega)
  refine ⟨after, ?_, length⟩
  rw [optPut, isAfter, pure_bind]

theorem exists_optPutAddress (pkt : List U8) (n : Nat) (code : U8) (host : U32)
    (size : pkt.length = 272) (room : n + 6 ≤ 32) :
    ∃ after next, optPutAddress pkt n code host = pure (after, next) ∧ after.length = 272 ∧
      next ≤ n + 6 := by
  rw [optPutAddress]
  split
  · exact ⟨pkt, n, rfl, size, Nat.le_add_right n 6⟩
  · have length : (toBytes 4 (netHtonl host)).length = 4 := length_toBytes 4 _
    obtain ⟨after, isAfter, lengthAfter⟩ := exists_optPut pkt n code (toBytes 4 (netHtonl host))
      size (by omega)
    exact ⟨after, n + (2 + (toBytes 4 (netHtonl host)).length), isAfter, lengthAfter, by omega⟩

theorem exists_dhcpHeader (stack : Stack) :
    ∃ pkt, dhcpHeader stack = pure pkt ∧ pkt.length = 272 := by
  obtain ⟨first, isFirst, sizeFirst⟩ := exists_store (replicate (240 + 32) 0) 0 [1, 1, 6]
    length_replicate (by decide)
  obtain ⟨second, isSecond, sizeSecond⟩ := exists_store first 4
    (toBytes 4 (netHtonl stack.dhcp.xid)) sizeFirst (by rw [length_toBytes]; decide)
  obtain ⟨third, isThird, sizeThird⟩ := exists_store second 10 (toBytes 2 (netHtons 0x8000))
    sizeSecond (by rw [length_toBytes]; decide)
  obtain ⟨fourth, isFourth, sizeFourth⟩ := exists_store third 28 (ofFn stack.mac)
    sizeThird (by rw [length_ofFn]; decide)
  obtain ⟨last, isLast, sizeLast⟩ := exists_store fourth 236 (toBytes 4 (netHtonl magicCookie))
    sizeFourth (by rw [length_toBytes]; decide)
  refine ⟨last, ?_, sizeLast⟩
  rw [dhcpHeader, isFirst, pure_bind, isSecond, pure_bind, isThird, pure_bind, isFourth, pure_bind,
    isLast]

theorem exists_sends_dhcpSend (stack : Stack) (msgtype : U8) (reqIpHost srvHost : U32) :
    ∃ frames, Sends stack (dhcpSend msgtype reqIpHost srvHost) frames := by
  obtain ⟨header, isHeader, sizeHeader⟩ := exists_dhcpHeader stack
  obtain ⟨first, isFirst, sizeFirst⟩ := exists_optPut header 0 53 [msgtype] sizeHeader
    (by rw [length_singleton]; decide)
  obtain ⟨second, n, isSecond, sizeSecond, few⟩ := exists_optPutAddress first 3 50 reqIpHost
    sizeFirst (by decide)
  obtain ⟨third, m, isThird, sizeThird, fewer⟩ := exists_optPutAddress second n 54 srvHost
    sizeSecond (by omega)
  obtain ⟨last, isLast, sizeLast⟩ := exists_store third (240 + m) [0xff] sizeThird
    (by rw [length_singleton]; omega)
  have short : 240 + (m + 1) ≤ 1492 := by omega
  have inside : 240 + (m + 1) ≤ last.length := by omega
  obtain ⟨frames, sends⟩ := exists_sends_udpSend stack 0xffffffff 67 68 short inside
  refine ⟨frames, ?_⟩
  rw [dhcpSend]
  apply sends_get
  rw [isHeader, pure_bind, isFirst, pure_bind]
  change Sends stack (optPutAddress first 3 50 reqIpHost >>= _) frames
  rw [isSecond, pure_bind]
  change Sends stack (optPutAddress second n 54 srvHost >>= _) frames
  rw [isThird, pure_bind]
  change Sends stack (checked .buffer (write third (240 + m) [0xff]) >>= _) frames
  rw [isLast, pure_bind]
  exact sends

/-! ## Options -/

variable {data : List U8} {len : Nat}

theorem exists_optLoop (inside : len ≤ data.length) {fuel i : Nat} (enough : len - i < fuel)
    (options : DhcpOptions) :
    ∃ final, optLoop data len fuel i options = pure final := by
  induction fuel generalizing i options with
  | zero => exact absurd enough (Nat.not_lt_zero _)
  | succ fuel ih =>
    rw [optLoop]
    split
    · rename_i isByte
      rw [checked_read (by omega), pure_bind]
      dsimp only
      split
      · exact ih (by omega) _
      · split
        · exact ⟨_, rfl⟩
        · split
          · exact ⟨_, rfl⟩
          · rw [checked_read (by omega), pure_bind]
            split
            · exact ⟨_, rfl⟩
            · rw [checked_read (by omega), pure_bind]
              exact ih (by omega) _
    · exact ⟨_, rfl⟩

/-- What `opt_parse` finds in the first `len` bytes. -/
def optionsOf (data : List U8) (len : Nat) : DhcpOptions :=
  match optParse data len bootStack with
  | .ok options _ => options
  | .error _ _ => { msgtype := 0, subnet := 0, router := 0, srv := 0 }

theorem optParse_eq (inside : len ≤ data.length) :
    optParse data len = pure (optionsOf data len) := by
  obtain ⟨final, isFinal⟩ := exists_optLoop inside (show len - 240 < len + 1 by omega)
    { msgtype := 0, subnet := 0, router := 0, srv := 0 }
  have isOptions : optParse data len = pure final := isFinal
  rw [optionsOf, isOptions]
  rfl

/-! ## Datagrams -/

/-- A datagram of this type, with the magic cookie, for this transaction. -/
structure Carries (data : List U8) (len : Nat) (xid : U32) (type : U8) : Prop where
  long : 240 + 3 ≤ len
  cookie : u32At data 236 = netHtonl magicCookie
  transaction : u32At data 4 = netHtonl xid
  message : (optionsOf data len).msgtype = type

def yiaddrOf (data : List U8) : U32 :=
  netHtonl (u32At data 16)

/-- What an accepted offer does. -/
structure TakesOffer (stack : Stack) (data : List U8) (len : Nat) (after : Stack) : Prop where
  from_discovering : stack.dhcp.state = .discovering
  offer : Carries data len stack.dhcp.xid dhcpOffer
  result : ∃ next io, after =
    { stack with
      dhcp := { stack.dhcp with
        state := .requesting, offerIp := yiaddrOf data, srvId := (optionsOf data len).srv,
        nextTryMs := next }
      io }

/-- What an accepted acknowledgement does. -/
structure TakesAck (stack : Stack) (data : List U8) (len : Nat) (after : Stack) : Prop where
  from_requesting : stack.dhcp.state = .requesting
  ack : Carries data len stack.dhcp.xid dhcpAck
  result : ∃ io, after =
    { stack with
      ip := if yiaddrOf data ≠ 0 then yiaddrOf data else stack.dhcp.offerIp
      mask := (optionsOf data len).subnet
      gw := (optionsOf data len).router
      dhcp := { stack.dhcp with state := .bound }
      io }

theorem exists_takeOffer (stack : Stack) (yiaddr srv : U32) :
    ∃ next io, takeOffer yiaddr srv stack = .ok () { stack with
        dhcp := { stack.dhcp with
          state := .requesting, offerIp := yiaddr, srvId := srv, nextTryMs := next }
        io } := by
  obtain ⟨text, isText, terminated⟩ := exists_netIpv4Str yiaddr
  let offered : Stack := { stack with dhcp := { stack.dhcp with offerIp := yiaddr, srvId := srv } }
  have isMatch : Matches (ascii "offer %s - requesting") [.ofString text] :=
    matches_of_kinds (show argumentKinds 64 _ = some [.string] by decide)
      (.cons (accepts_ofString terminated) .nil)
  obtain ⟨_, io, logged, -⟩ := sends_klogLvl offered klogNotice "net.dhcp" isMatch
  obtain ⟨frames, result, final, sent, -⟩ :=
    exists_sends_dhcpSend { offered with io } dhcpRequest yiaddr srv
  refine ⟨final.inputs final.taken + 4000, { final with taken := final.taken + 1 }, ?_⟩
  rw [takeOffer]
  change (netIpv4Str yiaddr >>= _) offered = _
  rw [isText, pure_bind]
  change (klogLvl klogNotice "net.dhcp" "offer %s - requesting" [.ofString text] >>= _) offered = _
  rw [bind_of_ok logged, bind_of_ok sent]
  rfl

theorem exists_takeAck (stack : Stack) (yiaddr subnet router : U32) :
    ∃ io, takeAck yiaddr subnet router stack = .ok () { stack with
        ip := if yiaddr ≠ 0 then yiaddr else stack.dhcp.offerIp
        mask := subnet
        gw := router
        dhcp := { stack.dhcp with state := .bound }
        io } := by
  let bound : Stack := { stack with
      ip := if yiaddr ≠ 0 then yiaddr else stack.dhcp.offerIp
      mask := subnet
      gw := router
      dhcp := { stack.dhcp with state := .bound } }
  obtain ⟨ip, isIp, ipTerminated⟩ := exists_netIpv4Str bound.ip
  obtain ⟨mask, isMask, maskTerminated⟩ := exists_netIpv4Str subnet
  obtain ⟨gw, isGw, gwTerminated⟩ := exists_netIpv4Str router
  have isMatch : Matches (ascii "bound: ip %s mask %s gw %s")
      [.ofString ip, .ofString mask, .ofString gw] :=
    matches_of_kinds (show argumentKinds 64 _ = some [.string, .string, .string] by decide)
      (.cons (accepts_ofString ipTerminated) (.cons (accepts_ofString maskTerminated)
        (.cons (accepts_ofString gwTerminated) .nil)))
  obtain ⟨_, io, logged, -⟩ := sends_klogLvl bound klogNotice "net.dhcp" isMatch
  refine ⟨io, ?_⟩
  rw [takeAck]
  change (netIpv4Str bound.ip >>= _) bound = _
  rw [isIp, pure_bind]
  change (netIpv4Str subnet >>= _) bound = _
  rw [isMask, pure_bind]
  change (netIpv4Str router >>= _) bound = _
  rw [isGw, pure_bind]
  exact logged

theorem u32At_part (data : List U8) (offset : Nat) :
    u32At (part data offset 4) 0 = u32At data offset := by
  rw [u32At, part_part data offset (le_refl 4), u32At, add_zero]

/-- Every way `dhcp_rx` can end: it takes an offer, it takes an acknowledgement, or the
datagram is neither and nothing changes. -/
theorem dhcpRx_cases (stack : Stack) (srcIp : U32) (sport : U16) (inside : len ≤ data.length) :
    ∃ after, dhcpRx srcIp sport data len stack = .ok () after ∧
      (TakesOffer stack data len after ∨ TakesAck stack data len after ∨
        (¬ (stack.dhcp.state = .discovering ∧ Carries data len stack.dhcp.xid dhcpOffer) ∧
          ¬ (stack.dhcp.state = .requesting ∧ Carries data len stack.dhcp.xid dhcpAck) ∧
          after = stack)) := by
  by_cases long : len < 240 + 3
  · refine ⟨stack, by rw [dhcpRx, if_pos long]; rfl, .inr (.inr ⟨?_, ?_, rfl⟩)⟩
    · rintro ⟨-, carries⟩
      exact absurd carries.long (not_le.mpr long)
    · rintro ⟨-, carries⟩
      exact absurd carries.long (not_le.mpr long)
  by_cases cookie : u32At data 236 = netHtonl magicCookie
  swap
  · refine ⟨stack, ?_, .inr (.inr ⟨?_, ?_, rfl⟩)⟩
    · rw [dhcpRx, if_neg long, checked_read (by omega), pure_bind, u32At_part, if_pos cookie]
      rfl
    · exact fun carries => cookie carries.2.cookie
    · exact fun carries => cookie carries.2.cookie
  have readCookie (next : List U8 → NetM Unit) :
      (checked .frame (read data 236 4) >>= next) = next (part data 236 4) := by
    rw [checked_read (by omega), pure_bind]
  have readXid (next : List U8 → NetM Unit) :
      (checked .frame (read data 4 4) >>= next) = next (part data 4 4) := by
    rw [checked_read (by omega), pure_bind]
  by_cases transaction : u32At data 4 = netHtonl stack.dhcp.xid
  swap
  · refine ⟨stack, ?_, .inr (.inr ⟨?_, ?_, rfl⟩)⟩
    · rw [dhcpRx, if_neg long, readCookie, u32At_part, if_neg (not_not_intro cookie), readXid,
        get_bind, u32At_part, if_pos transaction]
      rfl
    · exact fun carries => transaction carries.2.transaction
    · exact fun carries => transaction carries.2.transaction
  have isRest : dhcpRx srcIp sport data len stack =
      (if stack.dhcp.state = .discovering ∧ (optionsOf data len).msgtype = dhcpOffer then
        takeOffer (yiaddrOf data) (optionsOf data len).srv
      else if stack.dhcp.state = .requesting ∧ (optionsOf data len).msgtype = dhcpAck then
        takeAck (yiaddrOf data) (optionsOf data len).subnet (optionsOf data len).router
      else
        pure ()) stack := by
    rw [dhcpRx, if_neg long, readCookie, u32At_part, if_neg (not_not_intro cookie), readXid,
      get_bind, u32At_part, if_neg (not_not_intro transaction), checked_read (by omega), pure_bind,
      u32At_part, optParse_eq inside, pure_bind]
    rfl
  rw [isRest]
  have carries {type : U8} (message : (optionsOf data len).msgtype = type) :
      Carries data len stack.dhcp.xid type :=
    ⟨Nat.le_of_not_lt long, cookie, transaction, message⟩
  by_cases isOffer : stack.dhcp.state = .discovering ∧ (optionsOf data len).msgtype = dhcpOffer
  · obtain ⟨next, io, took⟩ := exists_takeOffer stack (yiaddrOf data) (optionsOf data len).srv
    rw [if_pos isOffer]
    exact ⟨_, took, .inl ⟨isOffer.1, carries isOffer.2, next, io, rfl⟩⟩
  · rw [if_neg isOffer]
    by_cases isAck : stack.dhcp.state = .requesting ∧ (optionsOf data len).msgtype = dhcpAck
    · obtain ⟨io, took⟩ := exists_takeAck stack (yiaddrOf data) (optionsOf data len).subnet
        (optionsOf data len).router
      rw [if_pos isAck]
      exact ⟨_, took, .inr (.inl ⟨isAck.1, carries isAck.2, io, rfl⟩)⟩
    · rw [if_neg isAck]
      exact ⟨stack, rfl, .inr (.inr ⟨fun both => isOffer ⟨both.1, both.2.message⟩,
        fun both => isAck ⟨both.1, both.2.message⟩, rfl⟩)⟩

/-! ## Start and polling -/

theorem dhcpStart_cases (stack : Stack) : ∃ after, dhcpStart stack = .ok () after ∧
      ((stack.dhcp.state ≠ .off ∧ after = stack) ∨ (stack.dhcp.state = .off ∧ ∃ next io, after =
          { stack with
            dhcp := { stack.dhcp with
              state := .discovering
              xid := (stack.io.inputs stack.io.taken).setWidth 32
              nextTryMs := next
              startedMs := next }
            io })) := by
  by_cases isOff : stack.dhcp.state = .off
  · let started : Stack := { stack with
        dhcp := { stack.dhcp with
          state := .discovering
          xid := (stack.io.inputs stack.io.taken).setWidth 32
          nextTryMs := stack.io.inputs (stack.io.taken + 1)
          startedMs := stack.io.inputs (stack.io.taken + 1) }
        io := { stack.io with taken := stack.io.taken + 1 + 1 } }
    obtain ⟨_, io, logged, -⟩ := sends_klogLvl_plain started klogNotice "net.dhcp"
      (show argumentKinds 64 (ascii "starting discovery") = some [] by decide)
    refine ⟨{ started with io }, ?_, .inr ⟨isOff, _, io, rfl⟩⟩
    rw [dhcpStart, get_bind, if_neg (not_not_intro isOff)]
    exact logged
  · refine ⟨stack, ?_, .inl ⟨isOff, rfl⟩⟩
    rw [dhcpStart, get_bind, if_pos isOff]
    rfl

theorem exists_pollSend (stack : Stack) {fmt : String}
    (noArguments : argumentKinds 64 (ascii fmt) = some []) (msgtype : U8) (reqIp srv : U32)
    (now : U64) :
    ∃ next io, pollSend fmt msgtype reqIp srv now stack = .ok ()
      { stack with dhcp := { stack.dhcp with nextTryMs := next }, io } := by
  obtain ⟨_, io, logged, -⟩ := sends_klogLvl_plain stack klogNotice "net.dhcp" noArguments
  obtain ⟨frames, result, final, sent, -⟩ :=
    exists_sends_dhcpSend { stack with io } msgtype reqIp srv
  refine ⟨now + 4000, final, ?_⟩
  rw [pollSend]
  change (klogLvl klogNotice "net.dhcp" fmt [] >>= _) stack = _
  rw [bind_of_ok logged, bind_of_ok sent]
  rfl

theorem exists_dhcpPoll (stack : Stack) : ∃ next io, dhcpPoll stack = .ok ()
      { stack with dhcp := { stack.dhcp with nextTryMs := next }, io } := by
  let polled : Stack := { stack with io := { stack.io with taken := stack.io.taken + 1 } }
  have isPolled : dhcpPoll stack = (if polled.dhcp.state = .off ∨ polled.dhcp.state = .bound then
        pure ()
      else if stack.io.inputs stack.io.taken < polled.dhcp.nextTryMs then
        pure ()
      else if polled.dhcp.state = .discovering then
        pollSend "sending DISCOVER" dhcpDiscover 0 0 (stack.io.inputs stack.io.taken)
      else if polled.dhcp.state = .requesting then
        pollSend "sending REQUEST" dhcpRequest polled.dhcp.offerIp polled.dhcp.srvId
          (stack.io.inputs stack.io.taken)
      else
        pure ()) polled :=
    rfl
  have unchanged : ∃ next io, (pure () : NetM Unit) polled = .ok ()
      { stack with dhcp := { stack.dhcp with nextTryMs := next }, io } :=
    ⟨stack.dhcp.nextTryMs, polled.io, rfl⟩
  rw [isPolled]
  split
  · exact unchanged
  · split
    · exact unchanged
    · split
      · exact exists_pollSend polled (by decide) _ _ _ _
      · split
        · exact exists_pollSend polled (by decide) _ _ _ _
        · exact unchanged

end XKern.Net
