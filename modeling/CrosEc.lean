import CrosEc.Lib.Packed
import CrosEc.Lib.MerkleTree
import CrosEc.Lib.Crash
import CrosEc.Lib.DList
import CrosEc.Lib.Tiling
import CrosEc.Lib.Ring
import CrosEc.Lib.Scan
import CrosEc.Lib.BitStream
import CrosEc.Lib.Interleaving
import CrosEc.Lib.BiphaseMark
import CrosEc.Lib.WordStream
import CrosEc.Common
import CrosEc.Nvmem.Model
import CrosEc.Nvmem.Recovery
import CrosEc.Nvmem.Runs
import CrosEc.Nvmem.Lock
import CrosEc.Nvmem.Regions
import CrosEc.Nvmem.Isolation
import CrosEc.Nvmem.Atomicity
import CrosEc.Nvmem.Erase
import CrosEc.Nvmem.CommitFailure
import CrosEc.Nvmem.Vars.Model
import CrosEc.Nvmem.Vars.Store
import CrosEc.Nvmem.Vars.Access
import CrosEc.Nvmem.Vars.Persist
import CrosEc.Nvmem.Vars.FiniteMap
import CrosEc.Nvmem.Vars.Format
import CrosEc.Nvmem.Vars.Bounds
import CrosEc.NvCounter.Model
import CrosEc.NvCounter.Counter
import CrosEc.NvCounter.Runs
import CrosEc.Shmalloc.Model
import CrosEc.Shmalloc.Layout
import CrosEc.Shmalloc.Chains
import CrosEc.Shmalloc.Runs
import CrosEc.Shmalloc.Restore
import CrosEc.Queue.Model
import CrosEc.Queue.Fifo
import CrosEc.Queue.Chunks
import CrosEc.Queue.Reachable
import CrosEc.EventLog.Fifo
import CrosEc.Pinweaver.Types
import CrosEc.Pinweaver.Merkle
import CrosEc.Pinweaver.Leaf
import CrosEc.Pinweaver.Log
import CrosEc.Pinweaver.Handlers
import CrosEc.Pinweaver.Cases
import CrosEc.Pinweaver.Response
import CrosEc.Pinweaver.Boot
import CrosEc.Pinweaver.Replay
import CrosEc.Pinweaver.StoreFailure
import CrosEc.Pinweaver.TryAuth
import CrosEc.Pinweaver.Ledger
import CrosEc.Pinweaver.Rollback
import CrosEc.ChargeManager.Model
import CrosEc.ChargeManager.Selection
import CrosEc.ChargeManager.Refresh
import CrosEc.ChargeManager.Stability
import CrosEc.ChargeManager.Hunt
import CrosEc.ChargeManager.SourcePort
import CrosEc.Base32.Model
import CrosEc.Base32.RoundTrip
import CrosEc.Base32.Errors
import CrosEc.Base32.Bounds
import CrosEc.Cbi.Model
import CrosEc.Cbi.Items
import CrosEc.Cbi.Map
import CrosEc.Cbi.Reload
import CrosEc.Cbi.Safety
import CrosEc.Cbi.Protected
import CrosEc.Rollback.Monotone
import CrosEc.Timer.Model
import CrosEc.Timer.Process
import CrosEc.Timer.NotLost
import CrosEc.Task.Model
import CrosEc.Task.WakeUp
import CrosEc.Mutex.Model
import CrosEc.Mutex.Safety
import CrosEc.HostCommand.Model
import CrosEc.UsbPd.Message
import CrosEc.UsbPd.Transmit
import CrosEc.UsbPd.Receive
import CrosEc.UsbPd.Tcpc
import CrosEc.UsbPd.Ring
import CrosEc.HostCommand.Packet
import CrosEc.HostCommand.PacketRoundTrip
import CrosEc.Mkbp.Model
import CrosEc.Mkbp.Fifo
import CrosEc.Mkbp.Interrupt
import CrosEc.Hooks.Deferred
import CrosEc.Tpm.Fifo
import CrosEc.Tpm.Response
import CrosEc.Tpm.AltSerialised
import CrosEc.Ccd.Open
import CrosEc.Ccd.Unlocked
import CrosEc.PhysicalPresence.Sequence
import CrosEc.RmaAuth.Guessing
import CrosEc.VbootHash.Progress
import CrosEc.FlashErase.Async
import CrosEc.JumpTag.Survival
import CrosEc.MotionSense.Exact
import CrosEc.Pinweaver.DelaySchedule
import CrosEc.FwUpdate.Model
import CrosEc.FwUpdate.Chip
import CrosEc.FwUpdate.Headers
import CrosEc.FwUpdate.Usb
import CrosEc.FwUpdate.Reassembly
import CrosEc.PdPolicy.BestRequest
import CrosEc.PdPolicy.AltModeRuns
import CrosEc.Lightbar.Contained
import CrosEc.Dcrypto.RoundTrip
import CrosEc.Dcrypto.Bignum
import CrosEc.Dcrypto.BignumExact
import CrosEc.Dcrypto.Division
import CrosEc.Dcrypto.Normalize
import CrosEc.Dcrypto.DivisionCarry
import CrosEc.Dcrypto.DivisionExact
import CrosEc.Dcrypto.ModF4
import CrosEc.Dcrypto.Modexp
import CrosEc.Dcrypto.ModexpExact
import CrosEc.Dcrypto.MillerRabin
import CrosEc.Dcrypto.ModinvExact
import CrosEc.Dcrypto.RsaKey
import CrosEc.Util.MemCopy
import CrosEc.Util.Divmod
import CrosEc.Printf.ReadBack
import CrosEc.Printf.IntBuf
import CrosEc.Uart.Output
import CrosEc.Uart.ReadRecent
import CrosEc.HostCommand.Find
import CrosEc.UsbPd.Damaged
import CrosEc.Hooks.Notify
import CrosEc.VbootHash.RwJump
import CrosEc.Ccd.Load
import CrosEc.Ccd.VendorBounds
import CrosEc.Console.Commands
import CrosEc.Console.EditorRefinement
import CrosEc.Console.PacketChecked
import CrosEc.UsbPd.TcpcI2c
import CrosEc.HostCommand.HostilePeer
import CrosEc.Keyboard.Exact
import CrosEc.Flash.Banks
import CrosEc.Flash.Protect
import CrosEc.FwUpdate.Refused
import CrosEc.RmaAuth.Command
import CrosEc.FwUpdate.VendorResponse
