import Uws.WebSocket.WebSocketExtensions

namespace Uws.WebSocket

open Uws.Http (Bytes ascii)

def windows : List Int := [0, 8, 9, 10, 11, 12, 13, 14, 15]

theorem mem_windows {window : Int} : window ∈ windows ↔ window = 0 ∨ (8 ≤ window ∧ window ≤ 15) := by
  simp only [windows, List.mem_cons, List.not_mem_nil, or_false]
  omega

theorem windows_of_sane {compressionWindow inflationWindow : Int}
    (sane : insaneWindows compressionWindow inflationWindow = false) :
    compressionWindow ∈ windows ∧ inflationWindow ∈ windows := by
  simp only [insaneWindows, Bool.or_eq_false_iff, Bool.and_eq_false_iff, decide_eq_false_iff_not] at sane
  rw [mem_windows, mem_windows]
  omega

structure States (response : ExtensionsParser) (compressionWindow inflationWindow : Int) : Prop where
  protocol : response.perMessageDeflate = true ∧ response.xWebKitDeflateFrame = false
  serverReset : response.serverNoContextTakeover = decide (compressionWindow = 0)
  server : response.serverMaxWindowBits = if compressionWindow < 15 then compressionWindow else 0
  clientReset : response.clientNoContextTakeover = decide (inflationWindow = 0)
  client : response.clientMaxWindowBits = if inflationWindow < 15 then inflationWindow else 0

def clientText (inflationWindow : Int) : Bytes :=
  if inflationWindow < 15 then
    if inflationWindow = 0 then ascii "; client_no_context_takeover"
    else ascii "; client_max_window_bits=" ++ windowText inflationWindow
  else []

def serverText (compressionWindow : Int) : Bytes :=
  if compressionWindow < 15 then
    if compressionWindow = 0 then ascii "; server_no_context_takeover"
    else ascii "; server_max_window_bits=" ++ windowText compressionWindow
  else []

def responseText (compressionWindow inflationWindow : Int) : Bytes :=
  ascii "permessage-deflate" ++ clientText inflationWindow ++ serverText compressionWindow

theorem responseText_read : ∀ compressionWindow ∈ windows, ∀ inflationWindow ∈ windows,
    let response := ExtensionsParser.parse (responseText compressionWindow inflationWindow)
    (response.perMessageDeflate = true ∧ response.xWebKitDeflateFrame = false) ∧
      response.serverNoContextTakeover = decide (compressionWindow = 0) ∧
      response.serverMaxWindowBits = (if compressionWindow < 15 then compressionWindow else 0) ∧
      response.clientNoContextTakeover = decide (inflationWindow = 0) ∧
      response.clientMaxWindowBits = (if inflationWindow < 15 then inflationWindow else 0) := by
  decide +kernel

theorem responseText_states {compressionWindow inflationWindow : Int} (compression : compressionWindow ∈ windows)
    (inflation : inflationWindow ∈ windows) :
    States (ExtensionsParser.parse (responseText compressionWindow inflationWindow)) compressionWindow inflationWindow := by
  obtain ⟨protocol, serverReset, server, clientReset, client⟩ :=
    responseText_read compressionWindow compression inflationWindow inflation
  exact ⟨protocol, serverReset, server, clientReset, client⟩

namespace ExtensionsParser

theorem storeInteger_protocol (ep : ExtensionsParser) (value : Int) :
    (ep.storeInteger value).perMessageDeflate = ep.perMessageDeflate ∧
      (ep.storeInteger value).xWebKitDeflateFrame = ep.xWebKitDeflateFrame := by
  unfold storeInteger
  split <;> exact ⟨rfl, rfl⟩

theorem takeToken_protocol {ep next : ExtensionsParser} {token : Int} (taken : ep.takeToken token = some next) :
    next.perMessageDeflate = ep.perMessageDeflate ∧ next.xWebKitDeflateFrame = ep.xWebKitDeflateFrame := by
  unfold takeToken at taken
  repeat' split at taken
  all_goals
    cases taken
    try exact ⟨rfl, rfl⟩
  exact storeInteger_protocol ep _

theorem takeTokens_protocol (fuel : Nat) (data : Bytes) (ep : ExtensionsParser) :
    (takeTokens fuel data ep).perMessageDeflate = ep.perMessageDeflate ∧
      (takeTokens fuel data ep).xWebKitDeflateFrame = ep.xWebKitDeflateFrame := by
  induction fuel generalizing data ep with
  | zero => exact ⟨rfl, rfl⟩
  | succ fuel ih =>
    rw [takeTokens]
    simp only
    split
    · exact ⟨rfl, rfl⟩
    · cases taken : ep.takeToken (getToken data).1 with
      | none => exact ⟨rfl, rfl⟩
      | some next =>
        obtain ⟨standard, safari⟩ := takeToken_protocol taken
        obtain ⟨standard', safari'⟩ := ih (getToken data).2 next
        exact ⟨standard'.trans standard, safari'.trans safari⟩

theorem parse_protocol {data : Bytes} (standard : (parse data).perMessageDeflate = true) :
    (parse data).xWebKitDeflateFrame = false := by
  unfold parse at standard ⊢
  simp only at standard ⊢
  rw [(takeTokens_protocol _ _ _).1, beq_iff_eq] at standard
  rw [(takeTokens_protocol _ _ _).2, standard]
  rfl

end ExtensionsParser

theorem negotiateClient_spec (ep : ExtensionsParser) (wanted : Int) :
    (negotiateClient ep wanted).2 = clientText (negotiateClient ep wanted).1 ∧
      ((negotiateClient ep wanted).1 ≠ 0 → (negotiateClient ep wanted).1 < 15 → ep.clientMaxWindowBits ≠ 0 ∧
        (ep.clientMaxWindowBits ≠ 1 → (negotiateClient ep wanted).1 ≤ ep.clientMaxWindowBits)) := by
  unfold negotiateClient clientText
  simp only
  by_cases reset : ep.clientNoContextTakeover = true
  · rw [if_pos reset]
    exact ⟨rfl, fun more => absurd rfl more⟩
  · rw [if_neg reset]
    by_cases limited : ep.clientMaxWindowBits ≠ 0 ∧ ep.clientMaxWindowBits ≠ 1
    · rw [if_pos limited]
      by_cases small : min ep.clientMaxWindowBits wanted < 15
      · rw [if_pos small]
        by_cases none : min ep.clientMaxWindowBits wanted = 0 ∨ ep.clientMaxWindowBits = 0
        · rw [if_pos none]
          exact ⟨rfl, fun more => absurd rfl more⟩
        · rw [if_neg none]
          rw [not_or] at none
          refine ⟨?_, fun _ _ => ⟨limited.1, fun _ => min_le_left _ _⟩⟩
          simp only [if_pos small, if_neg none.1]
      · rw [if_neg small]
        exact ⟨by simp only [if_neg small], fun _ less => absurd less small⟩
    · rw [if_neg limited]
      by_cases small : wanted < 15
      · rw [if_pos small]
        by_cases none : wanted = 0 ∨ ep.clientMaxWindowBits = 0
        · rw [if_pos none]
          exact ⟨rfl, fun more => absurd rfl more⟩
        · rw [if_neg none]
          rw [not_or] at none
          refine ⟨?_, fun _ _ => ⟨none.2, fun bits => absurd ⟨none.2, bits⟩ limited⟩⟩
          simp only [if_pos small, if_neg none.1]
      · rw [if_neg small]
        exact ⟨by simp only [if_neg small], fun _ less => absurd less small⟩

theorem negotiateServer_spec (ep : ExtensionsParser) (wanted : Int) :
    (negotiateServer ep wanted).2 = serverText (negotiateServer ep wanted).1 ∧
      (ep.serverNoContextTakeover = false → ep.serverMaxWindowBits ≠ 0 →
        (negotiateServer ep wanted).1 ≤ ep.serverMaxWindowBits ∨
          (ep.serverMaxWindowBits = 8 ∧ (negotiateServer ep wanted).1 = 9)) := by
  have window : (negotiateServer ep wanted).1 =
      if ep.serverNoContextTakeover then wanted
      else if ep.serverMaxWindowBits ≠ 0 then
        if min ep.serverMaxWindowBits wanted = 8 then 9 else min ep.serverMaxWindowBits wanted
      else wanted := by
    unfold negotiateServer
    simp only
    generalize (if ep.serverNoContextTakeover = true then wanted else _) = window
    split
    · split <;> rfl
    · rfl
  constructor
  · unfold negotiateServer serverText
    simp only
    generalize (if ep.serverNoContextTakeover = true then wanted else _) = window
    by_cases small : window < 15
    · rw [if_pos small]
      by_cases none : window = 0
      · simp only [if_pos none, if_pos small]
      · simp only [if_neg none, if_pos small]
    · simp only [if_neg small]
  · intro going bits
    rw [window, if_neg (by rw [going]; exact Bool.false_ne_true), if_pos bits]
    split <;> omega

theorem createStreams_windows (compression : Nat) : ∀ compressionWindow ∈ windows, ∀ inflationWindow ∈ windows,
    (createStreams true (windowOptions compression compressionWindow inflationWindow)).inflationStream =
        (if inflationWindow = 0 then none else some inflationWindow.toNat) ∧
      (createStreams true (windowOptions compression compressionWindow inflationWindow)).deflationStream =
        (if compressionWindow = 0 then none
          else some (if compression &&& dedicatedCompressor3kb ≠ 0 then 9 else compressionWindow.toNat)) := by
  unfold windowOptions
  by_cases small : compression &&& dedicatedCompressor3kb ≠ 0
  · simp only [if_pos small]
    decide +kernel
  · simp only [if_neg small]
    decide +kernel

/-- A negotiation with its response, its offer and its streams, as far as the code means to go: a compressor is not
    reset because a client asks for it, and a window of 8 is raised. -/
structure Consistent (compression : Nat) (offer : Bytes) (negotiated : Negotiation) : Prop where
  compressionWindow : negotiated.compressionWindow ∈ windows
  inflationWindow : negotiated.inflationWindow ∈ windows
  states : States (ExtensionsParser.parse negotiated.response) negotiated.compressionWindow negotiated.inflationWindow
  server : (ExtensionsParser.parse offer).serverNoContextTakeover = false →
    (ExtensionsParser.parse offer).serverMaxWindowBits ≠ 0 →
    negotiated.compressionWindow ≤ (ExtensionsParser.parse offer).serverMaxWindowBits ∨
      ((ExtensionsParser.parse offer).serverMaxWindowBits = 8 ∧ negotiated.compressionWindow = 9)
  client : (ExtensionsParser.parse negotiated.response).clientMaxWindowBits ≠ 0 →
    (ExtensionsParser.parse offer).clientMaxWindowBits ≠ 0 ∧
      ((ExtensionsParser.parse offer).clientMaxWindowBits ≠ 1 →
        (ExtensionsParser.parse negotiated.response).clientMaxWindowBits ≤
          (ExtensionsParser.parse offer).clientMaxWindowBits)
  upgraded : compression ≠ disabled → upgradeCompression compression offer =
    (true, windowOptions compression negotiated.compressionWindow negotiated.inflationWindow, some negotiated.response)
  inflation : compression ≠ disabled →
    (createStreams true (upgradeCompression compression offer).2.1).inflationStream =
      if negotiated.inflationWindow = 0 then none else some negotiated.inflationWindow.toNat
  deflation : compression ≠ disabled → negotiated.compressionWindow = 0 ∨ negotiated.compressionWindow = 9 →
    (createStreams true (upgradeCompression compression offer).2.1).deflationStream =
      if negotiated.compressionWindow = 0 then none else some negotiated.compressionWindow.toNat

def negotiate (compression : Nat) (offer : Bytes) : Negotiation :=
  negotiateCompression true (wantedCompressionWindow compression) (wantedInflationWindow compression) offer

theorem negotiate_deflate {compression : Nat} {offer : Bytes}
    (standard : (ExtensionsParser.parse offer).perMessageDeflate = true)
    (taken : (negotiate compression offer).compression = true) :
    insaneWindows (negotiateServer (ExtensionsParser.parse offer) (wantedCompressionWindow compression)).1
        (negotiateClient (ExtensionsParser.parse offer) (wantedInflationWindow compression)).1 = false ∧
      negotiate compression offer =
        ⟨true, (negotiateServer (ExtensionsParser.parse offer) (wantedCompressionWindow compression)).1,
          (negotiateClient (ExtensionsParser.parse offer) (wantedInflationWindow compression)).1,
          responseText (negotiateServer (ExtensionsParser.parse offer) (wantedCompressionWindow compression)).1
            (negotiateClient (ExtensionsParser.parse offer) (wantedInflationWindow compression)).1⟩ := by
  have safari := ExtensionsParser.parse_protocol standard
  have client := (negotiateClient_spec (ExtensionsParser.parse offer) (wantedInflationWindow compression)).1
  have server := (negotiateServer_spec (ExtensionsParser.parse offer) (wantedCompressionWindow compression)).1
  unfold negotiate negotiateCompression at taken ⊢
  simp only [Bool.not_true, Bool.false_eq_true, if_false, safari, standard, if_true] at taken ⊢
  cases insane : insaneWindows (negotiateServer (ExtensionsParser.parse offer) (wantedCompressionWindow compression)).1
      (negotiateClient (ExtensionsParser.parse offer) (wantedInflationWindow compression)).1 with
  | true =>
    rw [insane] at taken
    cases taken
  | false =>
    refine ⟨rfl, ?_⟩
    rw [if_neg Bool.false_ne_true, client, server]
    rfl

/-- A negotiated compression agrees with the response that states it, with the offer and with the streams. -/
theorem negotiation_consistent (compression : Nat) (offer : Bytes)
    (standard : (ExtensionsParser.parse offer).perMessageDeflate = true)
    (taken : (negotiate compression offer).compression = true) :
    Consistent compression offer (negotiate compression offer) := by
  obtain ⟨sane, outcome⟩ := negotiate_deflate standard taken
  obtain ⟨-, client⟩ := negotiateClient_spec (ExtensionsParser.parse offer) (wantedInflationWindow compression)
  obtain ⟨-, server⟩ := negotiateServer_spec (ExtensionsParser.parse offer) (wantedCompressionWindow compression)
  obtain ⟨compressionWindow, inflationWindow⟩ := windows_of_sane sane
  have states := responseText_states compressionWindow inflationWindow
  have some_ : offer ≠ [] := by
    rintro rfl
    revert standard
    decide
  have upgraded : compression ≠ disabled → upgradeCompression compression offer =
      (true, windowOptions compression (negotiate compression offer).compressionWindow
        (negotiate compression offer).inflationWindow, some (negotiate compression offer).response) := by
    intro configured
    have called : negotiateCompression true (wantedCompressionWindow compression) (wantedInflationWindow compression) offer =
        negotiate compression offer := rfl
    rw [upgradeCompression, if_pos ⟨some_, configured⟩, called]
    simp only [taken, if_true]
  rw [outcome] at upgraded ⊢
  obtain ⟨inflation, deflation⟩ := createStreams_windows compression _ compressionWindow _ inflationWindow
  refine ⟨compressionWindow, inflationWindow, states, server, ?_, upgraded, ?_, ?_⟩
  · intro stated
    simp only at stated ⊢
    rw [states.client] at stated ⊢
    split at stated
    · rename_i less
      rw [if_pos less]
      exact client stated less
    · exact absurd rfl stated
  · intro configured
    rw [upgraded configured]
    exact inflation
  · intro configured exact_
    rw [upgraded configured]
    refine deflation.trans ?_
    simp only at exact_ ⊢
    rcases exact_ with none | nine
    · rw [if_pos none, if_pos none]
    · have dedicated : ¬ (9 : Int) = 0 := by decide
      rw [nine, if_neg dedicated, if_neg dedicated]
      split <;> rfl

/-- A client that asks for a window of 10 where the server wants all. -/
theorem limited_consistent :
    Consistent (dedicatedCompressor ||| dedicatedDecompressor) (ascii "permessage-deflate; server_max_window_bits=10")
      (negotiate (dedicatedCompressor ||| dedicatedDecompressor)
        (ascii "permessage-deflate; server_max_window_bits=10")) :=
  negotiation_consistent _ _ (by decide +kernel) (by decide +kernel)

/-- The offer's demands on the compressor are not met, and neither is its stream that of the negotiated window. -/
theorem negotiation_deviates :
    (¬ ∀ (compression : Nat) (offer : Bytes), (ExtensionsParser.parse offer).perMessageDeflate = true →
      (negotiate compression offer).compression = true → (ExtensionsParser.parse offer).serverNoContextTakeover = true →
      (negotiate compression offer).compressionWindow = 0) ∧
    (¬ ∀ (compression : Nat) (offer : Bytes), (ExtensionsParser.parse offer).perMessageDeflate = true →
      (negotiate compression offer).compression = true → (ExtensionsParser.parse offer).serverMaxWindowBits ≠ 0 →
      (negotiate compression offer).compressionWindow ≤ (ExtensionsParser.parse offer).serverMaxWindowBits) ∧
    ¬ ∀ (compression : Nat) (offer : Bytes), (ExtensionsParser.parse offer).perMessageDeflate = true →
      (negotiate compression offer).compression = true → compression ≠ disabled →
      (createStreams true (upgradeCompression compression offer).2.1).deflationStream =
        if (negotiate compression offer).compressionWindow = 0 then none
        else some (negotiate compression offer).compressionWindow.toNat := by
  refine ⟨fun all => ?_, fun all => ?_, fun all => ?_⟩
  · have reset := all (dedicatedCompressor ||| dedicatedDecompressor)
      (ascii "permessage-deflate; server_no_context_takeover") (by decide +kernel) (by decide +kernel) (by decide +kernel)
    exact absurd reset (by decide +kernel)
  · have limited := all (dedicatedCompressor ||| dedicatedDecompressor)
      (ascii "permessage-deflate; server_max_window_bits=8") (by decide +kernel) (by decide +kernel) (by decide +kernel)
    exact absurd limited (by decide +kernel)
  · have stream := all (dedicatedCompressor ||| dedicatedDecompressor) (ascii "permessage-deflate") (by decide +kernel)
      (by decide +kernel) (by decide)
    exact absurd stream (by decide +kernel)

end Uws.WebSocket
