import XKern.AddressSpaces
import XKern.AesBounds
import XKern.Base64RoundTrip
import XKern.BoundedStrings
import XKern.ContextSwitch
import XKern.DevfsCalls
import XKern.DevfsHandles
import XKern.DhcpClient
import XKern.DhcpOptions
import XKern.Division
import XKern.Dma
import XKern.DmaTranslate
import XKern.ElfBounds
import XKern.Ext3Agreement
import XKern.Ext3Location
import XKern.Ext3MountSafety
import XKern.Ext3Read
import XKern.FsStreams
import XKern.Getdents
import XKern.Initram
import XKern.Installer
import XKern.Ipv4Delivery
import XKern.KeyDerive
import XKern.NetSafety
import XKern.PmmInit
import XKern.PmmOwnership
import XKern.PrintfStrings
import XKern.RamFS
import XKern.SchedRounds
import XKern.ScriptExec
import XKern.ScriptFrame
import XKern.Sha1Conforms
import XKern.StorageGeometry
import XKern.Traps
import XKern.Tsc
import XKern.UdpChecksum
import XKern.UsbDescriptors
import XKern.UsbDisk
import XKern.UsbDma
import XKern.UsbHid
import XKern.VforkSafety
import XKern.WaitWakeup
import XKern.LoadInvariant
import XKern.ProcessFrames
