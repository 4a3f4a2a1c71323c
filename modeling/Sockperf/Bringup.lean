import Sockperf.Ticks

/-!
# Internal data set up by `bringup`

The sizes and durations that `bringup` computes from the options of a client, and
the timer that ends a time based test.
-/

namespace Sockperf

set_option autoImplicit false

/-- What ends a test: the time, the number of packets (ping-pong only), or the end of the
playback vector. -/
inductive TestMode where
  | timeBased
  | numberBased (numberTestTarget : Nat)
  | playback (size : Nat)
  deriving DecidableEq, Repr

def testStartWarmupMsec : Nat := 400
def testEndCooldownMsec : Nat := 50
def testStartWarmupNum : Nat := 8000
def testEndCooldownNum : Nat := 1000
def testFirstConnectionFirstPacketTtlThresholdMsec : Nat := 50
def maxPacketNumber : Nat := 100000000

/-- The options that size a test. -/
structure UserParams where
  mode : TestMode
  secTestDuration : Nat
  mps : Nat
  burstSize : Nat
  replyEvery : Nat
  /-- number of sockets -/
  fdNum : Nat
  clientWorkWithSrvNum : Nat
  deriving DecidableEq, Repr

namespace UserParams
variable (p : UserParams)

def cooldownMsec : Nat := testEndCooldownMsec

/-- The product with 0.1 is rounded down by the cast. -/
def warmupMsec : Nat :=
  let w := testFirstConnectionFirstPacketTtlThresholdMsec + p.fdNum / 10
  if w < testStartWarmupMsec then testStartWarmupMsec else w

def maxTestDuration : Nat := 1 + p.secTestDuration + (p.warmupMsec + cooldownMsec) / 1000

/-- `_maxSequenceNo` of a client; `10 * reply_every` is computed in 32 bits. -/
def maxSequenceNo : Nat :=
  match p.mode with
  | .timeBased => p.maxTestDuration * p.mps + 10 * p.replyEvery % 2 ^ 32 + p.burstSize
  | .numberBased _ => testStartWarmupNum + maxPacketNumber + testEndCooldownNum
  | .playback size => size

/-- `cycleDurationNsec`, below the rate that stands for no pacing. -/
def cycleDurationNsec : Int := nsecInSec * p.burstSize / p.mps

end UserParams

end Sockperf
